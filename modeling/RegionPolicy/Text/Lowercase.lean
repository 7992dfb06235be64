import RegionPolicy.Text.CaseTable

/-!
# Lower case

World names are compared in lower case under the full Unicode rules. Two of them are not
character by character: the dotted capital I becomes two characters, and a capital sigma becomes
a final sigma where a word ends.

## Main definitions

* `lowerChar` — the lower case of one character outside any context.
* `isFinalSigma` — the rule for a capital sigma: a cased letter before it, none after it, case
  ignorable characters skipped on both sides.
* `lowercase` — the lower case of a text.
-/

namespace RegionPolicy

namespace Text

/-- Whether the character is a cased letter that is not case-ignorable. -/
def isCased (c : Char) : Bool :=
  inRanges casedRanges c.toNat

/-- Whether the character is skipped when a word's neighbours are looked for. -/
def isCaseIgnorable (c : Char) : Bool :=
  inRanges caseIgnorableRanges c.toNat

/-- The lower case of a character, where it is a single one. -/
def lowerSingle (c : Char) : Char :=
  match lowercaseRanges.find? fun r => r.contains c.toNat with
  | some r => Char.ofNat (r.image + (c.toNat - r.first))
  | none => c

/-- The lower case of a character outside any context. -/
def lowerChar (c : Char) : List Char :=
  if c.toNat < 0x80 then [c.toLower]
  else if c == '\u0130' then ['i', '\u0307']
  else [lowerSingle c]

/-- Whether the first character that is not case-ignorable is a cased letter. -/
def startsCased (cs : List Char) : Bool :=
  match cs.dropWhile isCaseIgnorable with
  | c :: _ => isCased c
  | [] => false

/-- Whether a capital sigma ends a word: `before` holds the characters before it, nearest first,
and `after` those behind it. -/
def isFinalSigma (before after : List Char) : Bool :=
  startsCased before && !startsCased after

/-- Lower-cases a text whose characters so far are `before`, nearest first. -/
def lowerFrom (before : List Char) : List Char → List Char
  | [] => []
  | c :: rest =>
    let lowered :=
      if c == 'Σ' then (if isFinalSigma before rest then ['ς'] else ['σ']) else lowerChar c
    lowered ++ lowerFrom (c :: before) rest

/-- The lower case of a text. -/
def lowercase (s : String) : String :=
  String.ofList (lowerFrom [] s.toList)

/-- The text with its ASCII capitals in lower case and every other character as it is. -/
def lowercaseAscii (s : String) : String :=
  String.ofList (s.toList.map Char.toLower)

end Text

end RegionPolicy
