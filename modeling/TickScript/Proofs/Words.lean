-- Words of a script: names, numerals, quoted texts and signs. Each is read up to its end, as long
-- as what follows does not go on with it.
import TickScript.Proofs.Operators

namespace TickScript

open TickScript.Text

variable {c : Char} {cs rest exponent : List Char}

/-! ## Where a word ends -/

theorem continuesName_of_isDigit (h : c.isDigit = true) : continuesName c = true := by
  have hrange : 48 ≤ c.toNat ∧ c.toNat ≤ 57 := by
    simpa [Char.isDigit, UInt32.le_iff_toNat_le] using h
  have hascii : c.toNat < 128 := by omega
  simp [continuesName, isNumeral, hascii, h]

theorem isAlpha_iff (c : Char) :
    c.isAlpha = true ↔ (65 ≤ c.toNat ∧ c.toNat ≤ 90) ∨ (97 ≤ c.toNat ∧ c.toNat ≤ 122) := by
  have hupper : c.isUpper = true ↔ 65 ≤ c.toNat ∧ c.toNat ≤ 90 := decide_eq_true_iff
  have hlower : c.isLower = true ↔ 97 ≤ c.toNat ∧ c.toNat ≤ 122 := by
    refine (Bool.and_eq_true_iff (x := decide _) (y := decide _)).trans ?_
    exact and_congr decide_eq_true_iff decide_eq_true_iff
  rw [← hupper, ← hlower]
  exact Bool.or_eq_true_iff

theorem continuesName_of_isAlpha (hascii : c.toNat < 128) (h : c.isAlpha = true) :
    continuesName c = true := by
  simp [continuesName, isLetter, hascii, h]

theorem continuesName_of_isHexDigit (h : isHexDigit c = true) : continuesName c = true := by
  simp only [isHexDigit, Bool.or_eq_true, Bool.and_eq_true, decide_eq_true_eq] at h
  rcases h with (h | ⟨hlow, hhigh⟩) | ⟨hlow, hhigh⟩
  · exact continuesName_of_isDigit h
  · have hleast : 97 ≤ c.toNat := hlow
    have hmost : c.toNat ≤ 102 := hhigh
    exact continuesName_of_isAlpha (by omega) ((isAlpha_iff c).mpr (by omega))
  · have hleast : 65 ≤ c.toNat := hlow
    have hmost : c.toNat ≤ 70 := hhigh
    exact continuesName_of_isAlpha (by omega) ((isAlpha_iff c).mpr (by omega))

theorem isDigit_of_startsName (h : startsName c = true) : c.isDigit = false := by
  rw [Bool.eq_false_iff]
  intro hdigit
  have hrange : 48 ≤ c.toNat ∧ c.toNat ≤ 57 := by
    simpa [Char.isDigit, UInt32.le_iff_toNat_le] using hdigit
  have hascii : c.toNat < 128 := by omega
  simp only [startsName, isLetter, hascii, ↓reduceIte, Bool.or_eq_true, decide_eq_true_eq] at h
  rcases h with h | rfl
  · rw [isAlpha_iff] at h
    omega
  · exact absurd hrange (by decide)

theorem inRanges_of_apart {ranges others : Array (Nat × Nat)}
    (hapart : ∀ r ∈ ranges.toList, ∀ s ∈ others.toList, r.2 < s.1 ∨ s.2 < r.1)
    (h : inRanges ranges c = true) : inRanges others c = false := by
  unfold inRanges at *
  rw [← Array.any_toList, List.any_eq_true] at h
  rw [← Array.any_toList, List.any_eq_false]
  obtain ⟨r, hr, hin⟩ := h
  intro s hs
  have := hapart r hr s hs
  simp only [Bool.and_eq_true, decide_eq_true_eq] at hin ⊢
  omega

/-- A blank is no part of a word. -/
theorem continuesName_of_isBlank (h : isBlank c = true) : continuesName c = false := by
  have hletters : ∀ r ∈ blankRanges.toList, ∀ s ∈ letterRanges.toList, r.2 < s.1 ∨ s.2 < r.1 := by
    decide +kernel
  have hnumerals : ∀ r ∈ blankRanges.toList, ∀ s ∈ numeralRanges.toList,
      r.2 < s.1 ∨ s.2 < r.1 := by
    decide +kernel
  unfold isBlank at h
  split at h
  · have hcode : c.toNat ∈ [9, 10, 11, 12, 13, 32] := by
      simp only [Bool.or_eq_true, Bool.and_eq_true, decide_eq_true_eq] at h
      rcases h with h | rfl
      · simp only [List.mem_cons, List.not_mem_nil, or_false]
        omega
      · decide
    have hascii : ∀ n ∈ [9, 10, 11, 12, 13, 32], continuesName (Char.ofNat n) = false := by decide
    have := hascii _ hcode
    rwa [Char.ofNat_toNat] at this
  · rename_i hascii
    have hunderscore : c ≠ '_' := by
      rintro rfl
      exact hascii (by decide)
    simp [continuesName, isLetter, isNumeral, hascii, inRanges_of_apart hletters h,
      inRanges_of_apart hnumerals h, hunderscore]

theorem isBlank_of_continuesName (h : continuesName c = true) : isBlank c = false := by
  rw [Bool.eq_false_iff]
  intro hblank
  rw [continuesName_of_isBlank hblank] at h
  cases h

/-- No word goes on with this text, and no number either. -/
def EndsWord (cs : List Char) : Prop := ∀ c ∈ cs.head?, continuesName c = false ∧ c ≠ '.'

theorem endsWord_of_isBlank (h : isBlank c = true) : EndsWord (c :: cs) := by
  simp only [EndsWord, List.head?_cons, Option.mem_def, Option.some.injEq, forall_eq']
  refine ⟨continuesName_of_isBlank h, ?_⟩
  rintro rfl
  exact absurd h (by decide)

namespace EndsWord

variable {cs : List Char} (h : EndsWord cs)

include h

theorem not_isDigit : ∀ c ∈ cs.head?, c.isDigit = false := fun c hc =>
  Bool.eq_false_iff.mpr fun hdigit =>
    Bool.eq_false_iff.mp (h c hc).1 (continuesName_of_isDigit hdigit)

theorem not_isHexDigit : ∀ c ∈ cs.head?, isHexDigit c = false := fun c hc =>
  Bool.eq_false_iff.mpr fun hdigit =>
    Bool.eq_false_iff.mp (h c hc).1 (continuesName_of_isHexDigit hdigit)

theorem ne {d : Char} (hd : continuesName d = true) : ∀ c ∈ cs.head?, c ≠ d := by
  rintro c hc rfl
  rw [(h c hc).1] at hd
  cases hd

end EndsWord

theorem takeWhile_append {p : Char → Bool} (hcs : ∀ c ∈ cs, p c = true)
    (hrest : ∀ c ∈ rest.head?, p c = false) :
    (cs ++ rest).takeWhile p = cs ∧ (cs ++ rest).dropWhile p = rest := by
  rw [List.takeWhile_append_of_pos hcs, List.dropWhile_append_of_pos hcs]
  cases rest with
  | nil => simp
  | cons c rest => simp [hrest c rfl]

/-! ## Numerals -/

/-- A fraction with its point, or nothing. -/
inductive IsFraction : List Char → Prop
  | none : IsFraction []
  | some {digits : List Char} (hne : digits ≠ []) (hdigits : ∀ c ∈ digits, c.isDigit = true) :
      IsFraction ('.' :: digits)

/-- An exponent with its mark, or nothing. -/
inductive IsExponent : List Char → Prop
  | none : IsExponent []
  | some {mark : Char} {sign digits : List Char} (hmark : mark = 'e' ∨ mark = 'E')
      (hsign : sign = [] ∨ sign = ['+'] ∨ sign = ['-']) (hne : digits ≠ [])
      (hdigits : ∀ c ∈ digits, c.isDigit = true) : IsExponent (mark :: (sign ++ digits))

/-- A decimal numeral: digits, a fraction and an exponent. There are digits before or behind the
point. -/
inductive IsDecimal : List Char → Prop
  | mk {whole fraction exponent : List Char} (hwhole : ∀ c ∈ whole, c.isDigit = true)
      (hfraction : IsFraction fraction) (hexponent : IsExponent exponent)
      (hne : whole ≠ [] ∨ fraction ≠ []) : IsDecimal (whole ++ (fraction ++ exponent))

/-- A hexadecimal numeral. -/
inductive IsHexadecimal : List Char → Prop
  | mk {mark : Char} {digits : List Char} (hmark : mark = 'x' ∨ mark = 'X') (hne : digits ≠ [])
      (hdigits : ∀ c ∈ digits, isHexDigit c = true) : IsHexadecimal ('0' :: mark :: digits)

theorem isFraction_takeFraction (cs : List Char) : IsFraction (takeFraction cs).1 := by
  unfold takeFraction
  split
  · rename_i rest
    dsimp only
    split
    · exact .none
    · rename_i hne
      exact .some (by simpa using hne) fun _ hc => List.mem_takeWhile_imp hc
  · exact .none

theorem isExponent_takeExponent (cs : List Char) : IsExponent (takeExponent cs).1 := by
  have hdigits : ∀ tail : List Char, ∀ c ∈ tail.takeWhile Char.isDigit, c.isDigit = true :=
    fun _ _ hc => List.mem_takeWhile_imp hc
  unfold takeExponent
  split
  · exact .none
  · split
    · rename_i c rest hmark
      have hmark : c = 'e' ∨ c = 'E' := by simpa using hmark
      dsimp only
      split
      · split
        · exact .none
        · rename_i hne
          exact .some hmark (by simp) (by simpa using hne) (hdigits _)
      · split
        · exact .none
        · rename_i hne
          exact .some hmark (by simp) (by simpa using hne) (hdigits _)
      · split
        · exact .none
        · rename_i hne
          exact .some hmark (by simp) (by simpa using hne) (hdigits _)
    · exact .none

theorem takeFraction_of_isFraction {fraction : List Char} (h : IsFraction fraction)
    (hdigit : ∀ c ∈ rest.head?, c.isDigit = false) (hpoint : ∀ c ∈ rest.head?, c ≠ '.') :
    takeFraction (fraction ++ rest) = (fraction, rest) := by
  cases h with
  | none =>
    unfold takeFraction
    split
    · rename_i heq
      rw [List.nil_append] at heq
      exact absurd rfl (hpoint '.' (by simp [heq]))
    · rfl
  | @some digits hne hdigits =>
    obtain ⟨htake, hdrop⟩ := takeWhile_append hdigits hdigit
    simp [takeFraction, htake, hdrop, hne]

theorem takeExponent_of_isExponent (h : IsExponent exponent) (hrest : EndsWord rest) :
    takeExponent (exponent ++ rest) = (exponent, rest) := by
  cases h with
  | none =>
    unfold takeExponent
    split
    · simp_all
    · rename_i c tail heq
      rw [List.nil_append] at heq
      have he := hrest.ne (d := 'e') (by decide) c (by simp [heq])
      have hE := hrest.ne (d := 'E') (by decide) c (by simp [heq])
      simp [he, hE, heq]
  | @some mark sign digits hmark hsign hne hdigits =>
    obtain ⟨htake, hdrop⟩ := takeWhile_append hdigits hrest.not_isDigit
    have hmark' : (mark = 'e' || mark = 'E') = true := by simpa using hmark
    have hempty : digits.isEmpty = false := by simpa using hne
    rcases hsign with rfl | rfl | rfl
    · -- A digit is no sign.
      unfold takeExponent
      simp only [List.cons_append, List.nil_append, hmark', ↓reduceIte]
      split
      · rename_i tail heq
        obtain ⟨d, ds, rfl⟩ := List.exists_cons_of_ne_nil hne
        cases heq
        exact absurd (hdigits '+' (by simp)) (by decide)
      · rename_i tail heq
        obtain ⟨d, ds, rfl⟩ := List.exists_cons_of_ne_nil hne
        cases heq
        exact absurd (hdigits '-' (by simp)) (by decide)
      · simp [htake, hdrop, hempty]
    · simp [takeExponent, hmark', htake, hdrop, hempty]
    · simp [takeExponent, hmark', htake, hdrop, hempty]

/-- What can stand where a decimal numeral has its exponent. -/
theorem head_of_isExponent (h : IsExponent exponent) (hrest : EndsWord rest) :
    ∀ c ∈ (exponent ++ rest).head?, c.isDigit = false ∧ c ≠ '.' ∧ c ≠ 'x' ∧ c ≠ 'X' := by
  intro c hc
  cases h with
  | none =>
    exact ⟨hrest.not_isDigit c hc, (hrest c hc).2, hrest.ne (by decide) c hc,
      hrest.ne (by decide) c hc⟩
  | some hmark =>
    obtain rfl := Option.mem_some.mp hc
    rcases hmark with rfl | rfl <;> decide

/-- What can stand where a decimal numeral has its fraction. -/
theorem head_of_isFraction {fraction : List Char} (h : IsFraction fraction)
    (hexponent : IsExponent exponent) (hrest : EndsWord rest) :
    ∀ c ∈ (fraction ++ (exponent ++ rest)).head?, c.isDigit = false ∧ c ≠ 'x' ∧ c ≠ 'X' := by
  intro c hc
  cases h with
  | none =>
    have := head_of_isExponent hexponent hrest c hc
    exact ⟨this.1, this.2.2⟩
  | some =>
    obtain rfl := Option.mem_some.mp hc
    decide

theorem startsNumber_of_isDigit (h : c.isDigit = true) (rest : List Char) :
    startsNumber (c :: rest) = true := by
  unfold startsNumber
  split
  · rename_i heq
    cases heq
    exact absurd h (by decide)
  · rename_i heq
    cases heq
    exact h
  · rename_i heq
    cases heq

theorem startsNumber_of_isDecimal (h : IsDecimal cs) (rest : List Char) :
    startsNumber (cs ++ rest) = true := by
  obtain @⟨whole, fraction, exponent, hwhole, hfraction, _, hne⟩ := h
  rcases whole with _ | ⟨c, whole⟩
  · cases hfraction with
    | none => simp at hne
    | @some digits hdigits hall =>
      obtain ⟨d, ds, rfl⟩ := List.exists_cons_of_ne_nil hdigits
      exact hall d (by simp)
  · exact startsNumber_of_isDigit (hwhole c (by simp)) _

theorem startsNumber_of_isHexadecimal (h : IsHexadecimal cs) (rest : List Char) :
    startsNumber (cs ++ rest) = true := by
  cases h
  exact startsNumber_of_isDigit (by decide) _

/-- A decimal numeral is read up to its end. -/
theorem readNumber_of_isDecimal (h : IsDecimal cs) (hrest : EndsWord rest) :
    readNumber (cs ++ rest) = .ok ⟨.number, cs, cs, rest⟩ := by
  obtain @⟨whole, fraction, exponent, hwhole, hfraction, hexponent, -⟩ := h
  have hheads := head_of_isFraction hfraction hexponent hrest
  have hexponents := head_of_isExponent hexponent hrest
  obtain ⟨htake, hdrop⟩ := takeWhile_append hwhole fun c hc => (hheads c hc).1
  have hdecimal : readDecimal (whole ++ (fraction ++ (exponent ++ rest))) =
      ⟨.number, whole ++ (fraction ++ exponent), whole ++ (fraction ++ exponent), rest⟩ := by
    simp only [readDecimal, htake, hdrop, takeExponent_of_isExponent hexponent hrest,
      takeFraction_of_isFraction hfraction (fun c hc => (hexponents c hc).1)
        (fun c hc => (hexponents c hc).2.1), List.append_assoc]
  rw [List.append_assoc, List.append_assoc, ← hdecimal]
  unfold readNumber
  split
  · rename_i x tail heq
    -- The mark of a hexadecimal numeral is no digit, and does not follow them.
    have hx : x ≠ 'x' ∧ x ≠ 'X' := by
      rcases whole with _ | ⟨c, _ | ⟨d, whole⟩⟩
      · rw [List.nil_append] at heq
        have := (hheads '0' (by rw [heq]; rfl)).1
        exact absurd this (by decide)
      · simp only [List.cons_append, List.nil_append, List.cons.injEq] at heq
        exact (hheads x (by rw [heq.2]; rfl)).2
      · simp only [List.cons_append, List.cons.injEq] at heq
        obtain ⟨_, rfl, _⟩ := heq
        have hd := hwhole d (by simp)
        constructor <;> rintro rfl <;> exact absurd hd (by decide)
    simp [hx]
  · rfl

/-- A hexadecimal numeral is read up to its end. -/
theorem readNumber_of_isHexadecimal (h : IsHexadecimal cs) (hrest : EndsWord rest) :
    readNumber (cs ++ rest) = .ok ⟨.hex, cs, cs, rest⟩ := by
  obtain ⟨hmark, hne, hdigits⟩ := h
  obtain ⟨htake, hdrop⟩ := takeWhile_append hdigits hrest.not_isHexDigit
  simp [readNumber, hmark, htake, hdrop, hne]

/-- What is read as a number is a numeral. -/
theorem readNumber_cases {p : Piece} (hs : startsNumber cs = true) (h : readNumber cs = .ok p) :
    p.kind = .number ∧ IsDecimal p.surface ∨ p.kind = .hex ∧ IsHexadecimal p.surface := by
  have hdecimal : IsDecimal (readDecimal cs).surface := by
    have hparts : (readDecimal cs).surface = cs.takeWhile Char.isDigit ++
        ((takeFraction (cs.dropWhile Char.isDigit)).1 ++
          (takeExponent (takeFraction (cs.dropWhile Char.isDigit)).2).1) := by
      simp [readDecimal]
    rw [hparts]
    refine .mk (fun _ hc => List.mem_takeWhile_imp hc)
      (isFraction_takeFraction _) (isExponent_takeExponent _) ?_
    rcases cs with _ | ⟨c, rest⟩
    · cases hs
    rcases startsNumber_cons hs with hc | ⟨rfl, d, tail, rfl, hd⟩
    · simp [hc]
    · simp [takeFraction, hd]
  unfold readNumber at h
  split at h
  · rename_i x tail
    split at h
    · rename_i hmark
      dsimp only at h
      split at h
      · cases h
      · rename_i hne
        cases h
        refine Or.inr ⟨rfl, .mk (by simpa using hmark) (by simpa using hne) fun c hc => ?_⟩
        exact List.mem_takeWhile_imp hc
    · cases h
      exact Or.inl ⟨rfl, hdecimal⟩
  · cases h
    exact Or.inl ⟨rfl, hdecimal⟩

/-! ## Words, texts and signs -/

/-- A name. -/
inductive IsWord : List Char → Prop
  | mk {c : Char} {cs : List Char} (hstart : startsName c = true)
      (hcs : ∀ d ∈ cs, continuesName d = true) : IsWord (c :: cs)

/-- A text that is read as an operator if it is one. -/
inductive IsSign : List Char → Prop
  | mk {c : Char} {cs : List Char} (hblank : isBlank c = false) (hsign : StartsSign c cs) :
      IsSign (c :: cs)

theorem readName_of_isWord (h : IsWord cs) (hrest : EndsWord rest) :
    readName (cs ++ rest) =
      ⟨if (rest.dropWhile isBlank).head? = some '(' then .call else .name, cs, cs, rest⟩ := by
  obtain ⟨hstart, hcs⟩ := h
  rename_i c cs
  have hall : ∀ d ∈ c :: cs, continuesName d = true :=
    List.forall_mem_cons.mpr ⟨continuesName_of_startsName hstart, hcs⟩
  obtain ⟨htake, hdrop⟩ := takeWhile_append hall fun d hd => (hrest d hd).1
  simp only [readName, htake, hdrop]

theorem cutAt?_append_cons {p : Char → Bool} {before after : List Char}
    (hbefore : ∀ d ∈ before, p d = false) (hc : p c = true) :
    cutAt? p (before ++ c :: after) = some (before, after) := by
  induction before with
  | nil => simp [cutAt?, hc]
  | cons d before ih =>
    obtain ⟨hd, hbefore⟩ := List.forall_mem_cons.mp hbefore
    simp [cutAt?, hd, ih hbefore]

theorem readText_of_no_quote {body : List Char} (h : '\'' ∉ body) :
    readText (body ++ '\'' :: rest) = .ok ⟨.text, body, '\'' :: body ++ ['\''], rest⟩ := by
  have hbody : ∀ c ∈ body, decide (c = '\'') = false := by
    intro c hc
    simpa using fun heq : c = '\'' => h (heq ▸ hc)
  simp [readText, cutAt?_append_cons hbody]

theorem startsNumber_append (h : startsNumber (c :: cs) = false)
    (hrest : ∀ d ∈ rest.head?, d.isDigit = false) : startsNumber (c :: (cs ++ rest)) = false := by
  rw [Bool.eq_false_iff]
  intro hstarts
  rcases startsNumber_cons hstarts with hc | ⟨rfl, d, tail, htail, hd⟩
  · rw [startsNumber_of_isDigit hc] at h
    cases h
  · cases cs with
    | nil =>
      rw [List.nil_append] at htail
      rw [hrest d (by simp [htail])] at hd
      cases hd
    | cons e cs =>
      simp only [List.cons_append, List.cons.injEq] at htail
      rw [← htail.1] at hd
      rw [startsNumber, hd] at h
      cases h

theorem startsNumber_of_append (h : startsNumber (c :: (cs ++ rest)) = false) :
    startsNumber (c :: cs) = false := by
  rw [Bool.eq_false_iff]
  intro hstarts
  rcases startsNumber_cons hstarts with hc | ⟨rfl, d, tail, rfl, hd⟩
  · rw [startsNumber_of_isDigit hc] at h
    cases h
  · rw [List.cons_append, startsNumber, hd] at h
    cases h

end TickScript
