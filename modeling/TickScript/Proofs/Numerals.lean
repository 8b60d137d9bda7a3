-- Numerals and the numbers that they spell: every numeral spells one, and it is the same one
-- whether a script is read or a text is taken for a number, with a sign before it or without.
import TickScript.Proofs.Printing

namespace TickScript

open TickScript.Text

variable {cs : List Char}

/-! ## Blanks at the ends -/

/-- There is no blank at either end. -/
structure Trimmed (cs : List Char) : Prop where
  first : ∀ c ∈ cs.head?, isBlank c = false
  last : ∀ c ∈ cs.getLast?, isBlank c = false

theorem trimmed_of_not_blank (h : ∀ c ∈ cs, isBlank c = false) : Trimmed cs :=
  ⟨fun c hc => h c (List.mem_of_head? hc), fun c hc => h c (List.mem_of_getLast? hc)⟩

theorem Trimmed.append {xs ys : List Char} (hxs : Trimmed xs) (hxne : xs ≠ [])
    (hys : Trimmed ys) (hyne : ys ≠ []) (between : List Char) :
    Trimmed (xs ++ (between ++ ys)) := by
  obtain ⟨x, xs, rfl⟩ := List.exists_cons_of_ne_nil hxne
  have hlast := hys.last
  rw [List.getLast?_eq_some_getLast hyne] at hlast
  refine ⟨hxs.first, ?_⟩
  rw [← List.append_assoc, List.getLast?_append, List.getLast?_eq_some_getLast hyne]
  exact hlast

theorem trimChars_append {blanks cs : List Char} (hblanks : ∀ c ∈ blanks, isBlank c = true)
    (hcs : Trimmed cs) : trimChars (blanks ++ cs) = cs := by
  have hreversed : cs.reverse.dropWhile isBlank = cs.reverse := by
    have hhead : ∀ c ∈ cs.reverse.head?, isBlank c = false := by
      rw [List.head?_reverse]
      exact hcs.last
    exact (takeWhile_append (List.forall_mem_nil _) hhead).2
  rw [trimChars, (takeWhile_append hblanks hcs.first).2, hreversed, List.reverse_reverse]

theorem Trimmed.trimChars_eq (h : Trimmed cs) : trimChars cs = cs :=
  trimChars_append (List.forall_mem_nil _) h

/-! ## What numerals spell -/

namespace Number

theorem readDigits?_of_isDigit {digits : List Char} (hne : digits ≠ [])
    (hdigits : ∀ c ∈ digits, c.isDigit = true) :
    readDigits? digits = some (digitsToNat digits) := by
  simp [readDigits?, hne, List.all_eq_true.mpr hdigits]

theorem exists_readExponent? (h : IsExponent cs) : ∃ e, readExponent? cs = some e := by
  cases h with
  | none => exact ⟨0, rfl⟩
  | @some mark sign digits hmark hsign hne hdigits =>
    have hread := readDigits?_of_isDigit hne hdigits
    have hmark : (mark = 'e' || mark = 'E') = true := by simpa using hmark
    unfold readExponent?
    simp only [hmark, ↓reduceIte]
    rcases hsign with rfl | rfl | rfl
    · -- A digit is no sign.
      split
      · rename_i tail heq
        rw [List.nil_append] at heq
        exact absurd (hdigits '-' (by simp [heq])) (by decide)
      · rename_i tail heq
        rw [List.nil_append] at heq
        exact absurd (hdigits '+' (by simp [heq])) (by decide)
      · exact ⟨_, by rw [List.nil_append, hread]; rfl⟩
    · exact ⟨_, by simp only [List.singleton_append, hread]; rfl⟩
    · exact ⟨_, by simp only [List.singleton_append, hread]; rfl⟩

theorem exists_readUnsigned? (h : IsDecimal cs) : ∃ x, readUnsigned? cs = some x := by
  have hdecimal : ∃ x, readDecimal? cs = some x := by
    obtain @⟨whole, fraction, exponent, hwhole, hfraction, hexponent, hne⟩ := h
    have hnil : EndsWord [] := by simp [EndsWord]
    have hheads := head_of_isFraction hfraction hexponent hnil
    have hexponents := head_of_isExponent hexponent hnil
    rw [List.append_nil] at hheads hexponents
    obtain ⟨e, he⟩ := exists_readExponent? hexponent
    obtain ⟨htake, hdrop⟩ := takeWhile_append hwhole fun c hc => (hheads c hc).1
    simp only [readDecimal?, htake, hdrop]
    cases hfraction with
    | none =>
      have hwhole : whole.isEmpty = false := by simpa using hne
      split
      · rename_i tail hpoint
        rw [List.nil_append] at hpoint
        exact absurd rfl (hexponents '.' (by simp [hpoint])).2.1
      · simp only [List.nil_append, hwhole, Bool.false_and, he]
        exact ⟨_, rfl⟩
    | @some digits hdigits hall =>
      obtain ⟨htake, hdrop⟩ := takeWhile_append hall fun c hc => (hexponents c hc).1
      have hdigits : digits.isEmpty = false := by simpa using hdigits
      simp only [List.cons_append, htake, hdrop, hdigits, Bool.and_false, he]
      exact ⟨_, rfl⟩
  unfold readUnsigned?
  dsimp only
  split
  · exact ⟨_, rfl⟩
  · split
    · exact ⟨_, rfl⟩
    · exact hdecimal

theorem exists_readHex? {digits : List Char} (h : ∀ c ∈ digits, isHexDigit c = true) :
    ∃ x, readHex? digits = some x := by
  unfold readHex?
  generalize (0 : Float) = acc
  induction digits generalizing acc with
  | nil => exact ⟨acc, rfl⟩
  | cons c digits ih =>
    obtain ⟨hc, hdigits⟩ := List.forall_mem_cons.mp h
    obtain ⟨d, hd⟩ : ∃ d, hexDigit? c = some d := by
      simp only [isHexDigit, Bool.or_eq_true] at hc
      unfold hexDigit?
      split
      · exact ⟨_, rfl⟩
      · split
        · exact ⟨_, rfl⟩
        · split
          · exact ⟨_, rfl⟩
          · simp_all
    simp only [List.foldlM_cons, hd]
    exact ih hdigits _

end Number

/-- The lexeme is a numeral. -/
inductive Lexeme.IsNumeral : Lexeme → Prop
  | decimal {s : String} (h : IsDecimal s.toList) : IsNumeral ⟨.number, s⟩
  | hexadecimal {s : String} (h : IsHexadecimal s.toList) : IsNumeral ⟨.hex, s⟩

/-- The number that a numeral spells. -/
def Lexeme.magnitude (n : Lexeme) : Float :=
  if n.kind = .hex then (Number.readHex? (n.surface.toList.drop 2)).getD 0
  else (Number.readUnsigned? n.surface.toList).getD 0

theorem Lexeme.IsNumeral.spells {n : Lexeme} (h : n.IsNumeral) : n.Spells n.magnitude := by
  cases h with
  | decimal h =>
    obtain ⟨x, hx⟩ := Number.exists_readUnsigned? h
    refine .decimal h ?_
    simp [magnitude, hx]
  | @hexadecimal s h =>
    have hdigits : ∃ x, Number.readHex? (s.toList.drop 2) = some x := by
      generalize s.toList = cs at h
      cases h with
      | mk _ _ hdigits => exact Number.exists_readHex? hdigits
    obtain ⟨x, hx⟩ := hdigits
    refine .hexadecimal h ?_
    simp [magnitude, hx]

theorem isBlank_of_isDigit {c : Char} (h : c.isDigit = true) : isBlank c = false :=
  isBlank_of_continuesName (continuesName_of_isDigit h)

theorem isBlank_of_isExponent (h : IsExponent cs) : ∀ c ∈ cs, isBlank c = false := by
  intro c hc
  cases h with
  | none => cases hc
  | some hmark hsign _ hdigits =>
    rcases List.mem_cons.mp hc with rfl | hc
    · rcases hmark with rfl | rfl <;> decide
    rcases List.mem_append.mp hc with hc | hc
    · rcases hsign with rfl | rfl | rfl
      · cases hc
      · rw [List.mem_singleton.mp hc]
        decide
      · rw [List.mem_singleton.mp hc]
        decide
    · exact isBlank_of_isDigit (hdigits c hc)

theorem isBlank_of_isDecimal (h : IsDecimal cs) : ∀ c ∈ cs, isBlank c = false := by
  obtain ⟨hwhole, hfraction, hexponent, -⟩ := h
  intro c hc
  rcases List.mem_append.mp hc with hc | hc
  · exact isBlank_of_isDigit (hwhole c hc)
  rcases List.mem_append.mp hc with hc | hc
  · cases hfraction with
    | none => cases hc
    | some _ hdigits =>
      rcases List.mem_cons.mp hc with rfl | hc
      · decide
      · exact isBlank_of_isDigit (hdigits c hc)
  · exact isBlank_of_isExponent hexponent c hc

theorem isBlank_of_isHexadecimal (h : IsHexadecimal cs) : ∀ c ∈ cs, isBlank c = false := by
  obtain ⟨hmark, _, hdigits⟩ := h
  intro c hc
  rcases List.mem_cons.mp hc with rfl | hc
  · decide
  rcases List.mem_cons.mp hc with rfl | hc
  · rcases hmark with rfl | rfl <;> decide
  · exact isBlank_of_continuesName (continuesName_of_isHexDigit (hdigits c hc))

namespace Lexeme.Spells

variable {x : Float} {n : Lexeme} (h : n.Spells x)

include h

theorem isBlank_surface : ∀ c ∈ n.surface.toList, isBlank c = false := by
  cases h with
  | decimal h => exact isBlank_of_isDecimal h
  | hexadecimal h => exact isBlank_of_isHexadecimal h

theorem startsNumber_surface (rest : List Char) :
    startsNumber (n.surface.toList ++ rest) = true := by
  cases h with
  | decimal h => exact startsNumber_of_isDecimal h rest
  | hexadecimal h => exact startsNumber_of_isHexadecimal h rest

theorem readNumber_surface {rest : List Char} (hrest : EndsWord rest) :
    readNumber (n.surface.toList ++ rest) =
      .ok ⟨n.kind, n.surface.toList, n.surface.toList, rest⟩ := by
  cases h with
  | decimal h => exact readNumber_of_isDecimal h hrest
  | hexadecimal h => exact readNumber_of_isHexadecimal h hrest

theorem spelled_eq : n.spelled = n.surface.toList := by
  cases h <;> rfl

/-- A numeral spells its number also where a sign may stand before it. -/
theorem readMagnitude? : Number.readMagnitude? n.surface.toList = some x := by
  have hstarts := h.startsNumber_surface []
  have hnil : EndsWord [] := by simp [EndsWord]
  have hread := h.readNumber_surface hnil
  rw [List.append_nil] at hstarts hread
  cases h with
  | @decimal s h hx =>
    dsimp only at hstarts hread ⊢
    generalize s.toList = cs at *
    have hnone : Number.hexDigits? cs = none := by
      unfold Number.hexDigits?
      split
      · simp only [readNumber, decide_true, Bool.true_or, ↓reduceIte] at hread
        split at hread <;> cases hread
      · simp only [readNumber, decide_true, Bool.or_true, ↓reduceIte] at hread
        split at hread <;> cases hread
      · rfl
    simp only [Number.readMagnitude?, hnone]
    unfold Number.readSigned?
    split
    · exact absurd hstarts (by simp [startsNumber])
    · exact absurd hstarts (by simp [startsNumber])
    · exact hx
  | @hexadecimal s h hx =>
    dsimp only at hx ⊢
    generalize s.toList = cs at *
    cases h with
    | @mk mark digits hmark hne _ =>
      have hdigits : Number.hexDigits? ('0' :: mark :: digits) = some digits := by
        rcases hmark with rfl | rfl <;> rfl
      simp only [Number.readMagnitude?, hdigits]
      exact hx

theorem read? : Number.read? n.surface = some x := by
  have hstarts := h.startsNumber_surface []
  rw [List.append_nil] at hstarts
  unfold Number.read?
  rw [(trimmed_of_not_blank h.isBlank_surface).trimChars_eq]
  split
  · rename_i rest heq
    rw [heq] at hstarts
    exact absurd hstarts (by simp [startsNumber])
  · exact h.readMagnitude?

/-- With the sign pasted to it a numeral spells the number with the other sign. -/
theorem read?_minus : Number.read? ("-" ++ n.surface) = some (-x) := by
  have hminus : ("-" ++ n.surface).toList = '-' :: n.surface.toList := by simp
  have hblank : ∀ c ∈ '-' :: n.surface.toList, isBlank c = false :=
    List.forall_mem_cons.mpr ⟨by decide, h.isBlank_surface⟩
  unfold Number.read?
  rw [hminus, (trimmed_of_not_blank hblank).trimChars_eq]
  simp only [h.readMagnitude?]
  rfl

end Lexeme.Spells

end TickScript
