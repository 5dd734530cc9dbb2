import ShaderGraph.Text.Ascii

/-!
# Universally unique identifiers

An identifier is a number of 128 bits. It is written as 32 lower case digits in five groups joined
by hyphens. It is read in four forms, with digits of either case: 32 digits, the five groups, and
the five groups in braces or after a `urn:uuid:` marker of either case.
-/

namespace ShaderGraph

structure Uuid where
  value : BitVec 128
deriving DecidableEq, Repr, Inhabited

namespace Uuid

def hyphenate (ds : List Char) : List Char :=
  ds.take 8 ++ '-' :: (ds.drop 8).take 4 ++ '-' :: (ds.drop 12).take 4 ++
    '-' :: (ds.drop 16).take 4 ++ '-' :: ds.drop 20

def text (u : Uuid) : String :=
  String.ofList (hyphenate (hexDigits 32 u.value.toNat))

/-- Reads 32 digits. -/
def ofDigits? (ds : List Char) : Option Uuid :=
  if ds.length = 32 then (ofHexDigits? ds).map fun n ↦ ⟨BitVec.ofNat 128 n⟩ else none

/-- Reads five groups joined by hyphens. -/
def ofGroups? (cs : List Char) : Option Uuid :=
  let ds := cs.take 8 ++ (cs.drop 9).take 4 ++ (cs.drop 14).take 4 ++ (cs.drop 19).take 4 ++
    cs.drop 24
  if hyphenate ds = cs then ofDigits? ds else none

def urnMarker : String := "urn:uuid:"

def ofText? (s : String) : Option Uuid :=
  let cs := s.toList
  if cs.length = 32 then ofDigits? cs
  else if cs.length = 36 then ofGroups? cs
  else if cs.length = 38 then
    if cs.head? = some '{' ∧ cs.getLast? = some '}' then ofGroups? (cs.tail.dropLast) else none
  else if cs.length = 45 then
    if (cs.take 9).map Char.toLower = urnMarker.toList then ofGroups? (cs.drop 9) else none
  else none

end Uuid

end ShaderGraph
