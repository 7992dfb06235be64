/-!
# Blank text

Names, ids and payloads count as blank when nothing but white space is in them. White space is
the Unicode property of that name, 25 code points in ten ranges; the zero-width space and the
byte-order mark are not among them.

## Main definitions

* `isBlankChar` — the white-space property.
* `trim` — a text without the white space at its ends.
* `isBlank` — whether nothing is left of a text once it is trimmed.
-/

namespace RegionPolicy

namespace Text

/-- The closed ranges of white space, ascending and apart. -/
def blankRanges : List (Nat × Nat) :=
  [(0x09, 0x0D), (0x20, 0x20), (0x85, 0x85), (0xA0, 0xA0), (0x1680, 0x1680), (0x2000, 0x200A),
   (0x2028, 0x2029), (0x202F, 0x202F), (0x205F, 0x205F), (0x3000, 0x3000)]

/-- Whether the character is white space. -/
def isBlankChar (c : Char) : Bool :=
  blankRanges.any fun r => r.1 ≤ c.toNat && c.toNat ≤ r.2

/-- The characters without the white space at either end. -/
def trimChars (cs : List Char) : List Char :=
  ((cs.dropWhile isBlankChar).reverse.dropWhile isBlankChar).reverse

/-- The text without the white space at either end. -/
def trim (s : String) : String :=
  String.ofList (trimChars s.toList)

/-- Whether the text is nothing but white space. -/
def isBlank (s : String) : Bool :=
  s.toList.all isBlankChar

theorem dropWhile_isBlankChar_eq_nil {cs : List Char} :
    cs.dropWhile isBlankChar = [] ↔ ∀ c ∈ cs, isBlankChar c = true := by
  induction cs with
  | nil => simp
  | cons c rest ih => by_cases hc : isBlankChar c = true <;> simp [hc, ih]

theorem trimChars_eq_nil_iff {cs : List Char} :
    trimChars cs = [] ↔ ∀ c ∈ cs, isBlankChar c = true := by
  rw [trimChars, List.reverse_eq_nil_iff, dropWhile_isBlankChar_eq_nil,
    ← @dropWhile_isBlankChar_eq_nil cs]
  constructor
  · intro h
    cases hd : cs.dropWhile isBlankChar with
    | nil => rfl
    | cons c rest =>
      have hc := List.head?_dropWhile_not isBlankChar cs
      simp only [hd, List.head?_cons] at hc
      have := h c (by simp [hd])
      simp_all
  · intro h
    simp [h]

/-- A text is blank exactly when trimming leaves nothing. -/
theorem isBlank_iff {s : String} : isBlank s = true ↔ trim s = "" := by
  rw [isBlank, List.all_eq_true, ← trimChars_eq_nil_iff, trim]
  exact ⟨fun h => by rw [h], fun h => by simpa using congrArg String.toList h⟩

end Text

end RegionPolicy
