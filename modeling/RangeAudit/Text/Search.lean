namespace RangeAudit.Text

/-- Whether the characters `p` stand next to each other somewhere in the list. -/
def occurs (p : List Char) : List Char → Bool
  | [] => p.isEmpty
  | c :: s => p.isPrefixOf (c :: s) || occurs p s

def contains (s word : String) : Bool :=
  occurs word.toList s.toList

def containsAny (s : String) (words : List String) : Bool :=
  words.any (contains s)

def startsWith (s word : String) : Bool :=
  word.toList.isPrefixOf s.toList

def splitChars (separator : Char) : List Char → List (List Char)
  | [] => [[]]
  | c :: s =>
    if c = separator then [] :: splitChars separator s
    else match splitChars separator s with
      | [] => [[c]]
      | piece :: rest => (c :: piece) :: rest

def split (separator : Char) (s : String) : List String :=
  (splitChars separator s.toList).map String.ofList

def join (separator : String) (parts : List String) : String :=
  separator.intercalate parts

theorem occurs_nil (s : List Char) : occurs [] s = true := by
  cases s <;> simp [occurs]

theorem occurs_iff (p s : List Char) : occurs p s = true ↔ ∃ a b, s = a ++ p ++ b := by
  induction s with
  | nil =>
    constructor
    · intro h
      have hp : p = [] := by simpa [occurs] using h
      exact ⟨[], [], by simp [hp]⟩
    · rintro ⟨a, b, h⟩
      have hp : p = [] := by
        have h' := h.symm
        simp only [List.append_eq_nil_iff] at h'
        exact h'.1.2
      simp [occurs, hp]
  | cons c s ih =>
    rw [occurs, Bool.or_eq_true, List.isPrefixOf_iff_prefix, ih]
    constructor
    · rintro (⟨b, hb⟩ | ⟨a, b, hb⟩)
      · exact ⟨[], b, by simp [hb]⟩
      · exact ⟨c :: a, b, by simp [hb]⟩
    · rintro ⟨a, b, h⟩
      cases a with
      | nil => exact .inl ⟨b, by simpa using h.symm⟩
      | cons d a =>
        simp only [List.cons_append, List.cons.injEq] at h
        exact .inr ⟨a, b, by simpa using h.2⟩

def isAsciiBlank (c : Char) : Bool :=
  (9 ≤ c.toNat && c.toNat ≤ 13) || c.toNat == 32

/-- Every white space character, the four ASCII separators among them. -/
def isBlank (c : Char) : Bool :=
  isAsciiBlank c ||
    [(28, 31), (133, 133), (160, 160), (5760, 5760), (8192, 8202), (8232, 8233), (8239, 8239),
      (8287, 8287), (12288, 12288)].any fun r => r.1 ≤ c.toNat && c.toNat ≤ r.2

def withoutBlanks (s : String) : String :=
  String.ofList (s.toList.filter (!isBlank ·))

def trim (isSpace : Char → Bool) (s : List Char) : List Char :=
  ((s.dropWhile isSpace).reverse.dropWhile isSpace).reverse

end RangeAudit.Text
