-- Ranges. A range goes on as long as the next number is before the bound. It ends exactly if no
-- number on its way swallows the step, as one does if the step is less than half the gap to the
-- next number; the guard against a step of zero does not see that. A range that ends does so within
-- the bound on walks, and one that does not keeps every function busy that walks through it.
import TickScript.Proofs.Sums
import TickScript.Proofs.Answers

namespace TickScript

open Float.Model UnpackedFloat
open TickScript.Number

/-! ## Lost steps -/

/-- A range with this bound and step has another number at `x`. -/
def GoesOn (stop step x : Float) : Prop := 0 < step ∧ x < stop ∨ step < 0 ∧ stop < x

/-- The range comes to a number that does not change when the step is added. -/
structure Stalls (start stop step c : Float) : Prop where
  finite : c.isFinite = true
  reached : 0 < step ∧ ¬c < start ∨ step < 0 ∧ ¬start < c
  goesOn : GoesOn stop step c
  lost : c + step = c

/-- Where the number is, counted in steps from zero. -/
def place (step x : Float) : ℚ := value x / value step

theorem next_of_goesOn {start stop step : Float} (h : GoesOn stop step start) :
    (Walk.range start stop step).next = some (.number start, .range (start + step) stop step) := by
  unfold Walk.next
  refine if_pos ?_
  simpa [GoesOn] using h

theorem next_of_not_goesOn {start stop step : Float} (h : ¬GoesOn stop step start) :
    (Walk.range start stop step).next = none := by
  unfold Walk.next
  refine if_neg ?_
  simpa [GoesOn] using h

theorem hasParts_zero : HasParts 0 (zeroParts .positive) := ⟨rfl, by decide⟩

section

variable {start stop step x c : Float} (hstep : step.isFinite = true) (hne : (step == 0) = false)

include hstep hne

theorem value_ne_zero : value step ≠ 0 := by
  intro hzero
  obtain ⟨d, hd⟩ := exists_hasParts hstep
  rcases d.unpacked_cases with ⟨s, -, hunpacked⟩ | ⟨hm, hunpacked⟩
  · rcases eq_zero_of_unpack (hd.unpack_eq.trans hunpacked) with rfl | rfl
    · cases hne.symm.trans (by decide : ((0 : Float) == 0) = true)
    · cases hne.symm.trans (by decide : ((-0 : Float) == 0) = true)
  · rw [hd.value_eq, ← abs_eq_zero, d.abs_value] at hzero
    exact (scaled_pos hm _).ne' hzero

omit hne in
theorem pos_iff : 0 < step ↔ 0 < value step := by
  obtain ⟨d, hd⟩ := exists_hasParts hstep
  rw [hasParts_zero.lt_iff hd, hasParts_zero.value_eq, value_zeroParts]

omit hne in
theorem neg_iff : step < 0 ↔ value step < 0 := by
  obtain ⟨d, hd⟩ := exists_hasParts hstep
  rw [hd.lt_iff hasParts_zero, hasParts_zero.value_eq, value_zeroParts]

theorem goesOn_iff (hstop : stop.isFinite = true) (hx : x.isFinite = true) :
    GoesOn stop step x ↔ place step x < place step stop := by
  obtain ⟨p, hp⟩ := exists_hasParts hx
  obtain ⟨r, hr⟩ := exists_hasParts hstop
  unfold GoesOn place
  rw [pos_iff hstep, neg_iff hstep, hp.lt_iff hr, hr.lt_iff hp]
  rcases lt_or_gt_of_ne (value_ne_zero hstep hne) with hneg | hpos
  · rw [div_lt_div_right_of_neg hneg]
    simp [hneg, hneg.not_gt]
  · rw [div_lt_div_iff_of_pos_right hpos]
    simp [hpos, hpos.not_gt]

theorem reached_iff (hstart : start.isFinite = true) (hc : c.isFinite = true) :
    0 < step ∧ ¬c < start ∨ step < 0 ∧ ¬start < c ↔ place step start ≤ place step c := by
  -- A range up to the start would be over at `c`.
  have hover : 0 < step ∧ ¬c < start ∨ step < 0 ∧ ¬start < c ↔ ¬GoesOn start step c := by
    unfold GoesOn
    rw [pos_iff hstep, neg_iff hstep]
    rcases lt_or_gt_of_ne (value_ne_zero hstep hne) with hneg | hpos
    · simp [hneg, hneg.not_gt]
    · simp [hpos, hpos.not_gt]
  rw [hover, goesOn_iff hstep hne hstart hc, not_lt]

/-! ## One step -/

/-- The sum of a number and the step as parts, with what they say about the number. -/
theorem exists_stepped (hx : x.isFinite = true) :
    ∃ p t : Parts, HasParts x p ∧ t.Rounds (p.value + value step) ∧
      (x + step).toModel.unpack = (if t.exponent ≤ 971 then t.unpacked else .infinity t.sign) ∧
      (x + step = x ↔ t.value = p.value) := by
  obtain ⟨p, hp⟩ := exists_hasParts hx
  obtain ⟨d, hd⟩ := exists_hasParts hstep
  obtain ⟨t, hround, hunpack⟩ := hp.exists_add hd
  have hvalue := value_ne_zero hstep hne
  rw [← hd.value_eq] at hround
  refine ⟨p, t, hp, hround, hunpack, fun hsame => ?_, fun hsame => ?_⟩
  · rw [hsame] at hunpack
    split at hunpack
    · rename_i hle
      exact (HasParts.value_eq ⟨hunpack, hle⟩).symm.trans hp.value_eq
    · rw [hp.unpack_eq] at hunpack
      rcases p.unpacked_cases with ⟨s, -, hzero⟩ | ⟨hm, hfinite⟩
      · cases hzero.symm.trans hunpack
      · cases hfinite.symm.trans hunpack
  · have hmoved : p.value ≠ 0 := by
      intro hzero
      rw [hzero, zero_add, hd.value_eq] at hround
      have heq := le_antisymm (hround.le d.rounds_value le_rfl) (d.rounds_value.le hround le_rfl)
      rw [hsame, hzero, ← hd.value_eq] at heq
      exact hvalue heq.symm
    obtain rfl := Parts.eq_of_value_eq hsame (hsame ▸ hmoved)
    rw [if_pos hp.le] at hunpack
    exact unpack_inj (hunpack.trans hp.unpack_eq.symm)

omit hne in
/-- No number is beyond the infinite one on the side of the step. -/
theorem not_goesOn_of_infinity {s : Sign} (hx : x.toModel.unpack = .infinity s)
    (hs : s = .positive ↔ 0 < value step) (stop : Float) : ¬GoesOn stop step x := by
  unfold GoesOn
  rw [pos_iff hstep, neg_iff hstep, lt_iff_compare, lt_iff_compare, hx]
  cases s with
  | positive =>
    have hpos := hs.mp rfl
    have hlast (b : UnpackedFloat) : UnpackedFloat.compare (.infinity .positive) b ≠ some .lt := by
      cases b with
      | infinity s => cases s <;> decide
      | notANumber | zero | finite => simp [UnpackedFloat.compare]
    simp [hlast, hpos.not_gt]
  | negative =>
    have hneg : ¬0 < value step := fun hpos => by cases hs.mpr hpos
    have hlast (b : UnpackedFloat) : UnpackedFloat.compare b (.infinity .negative) ≠ some .lt := by
      cases b with
      | infinity s => cases s <;> decide
      | notANumber | zero | finite => simp [UnpackedFloat.compare]
    simp [hlast, hneg]

/-- Either there is a next number, or it is infinite and the range is over. -/
theorem isFinite_add_or (hx : x.isFinite = true) :
    (x + step).isFinite = true ∨ ∀ stop, ¬GoesOn stop step (x + step) := by
  obtain ⟨p, t, hp, hround, hunpack, -⟩ := exists_stepped hstep hne hx
  split at hunpack
  · rename_i hle
    exact .inl (HasParts.isFinite ⟨hunpack, hle⟩)
  · rename_i hmore
    have hlt : p.exponent < t.exponent := lt_of_le_of_lt hp.le (not_le.mp hmore)
    exact .inr (not_goesOn_of_infinity hstep hunpack
      (Parts.sign_eq_positive_iff (value_ne_zero hstep hne) hround hlt))

theorem place_add (hx : x.isFinite = true) (hmoves : x + step ≠ x) :
    |place step x| ≤ 2 ^ 55 ∧
      ((x + step).isFinite = true → place step x + 1 / 2 ≤ place step (x + step)) := by
  obtain ⟨p, t, hp, hround, hunpack, hsame⟩ := exists_stepped hstep hne hx
  obtain ⟨hmove, hbound⟩ := Parts.moves (value_ne_zero hstep hne) hround (mt hsame.mpr hmoves)
  unfold place
  rw [hp.value_eq]
  refine ⟨hbound, fun hfinite => ?_⟩
  split at hunpack
  · rename_i hle
    rwa [HasParts.value_eq ⟨hunpack, hle⟩]
  · change (x + step).toModel.unpack.isFinite = true at hfinite
    rw [hunpack] at hfinite
    cases hfinite

/-- What is not beyond a number that swallows the step does not get beyond it. -/
theorem place_add_le (hx : x.isFinite = true) (hc : c.isFinite = true) (hlost : c + step = c)
    (hle : place step x ≤ place step c) :
    (x + step).isFinite = true ∧ place step (x + step) ≤ place step c := by
  obtain ⟨p, t, hp, hround, hunpack, -⟩ := exists_stepped hstep hne hx
  obtain ⟨r, u, hr, hround', -, hsame⟩ := exists_stepped hstep hne hc
  have hvalue := value_ne_zero hstep hne
  unfold place at hle ⊢
  rw [hp.value_eq, hr.value_eq] at hle
  have hbefore := Parts.div_le_div_of_rounds hvalue hround hround' hle
  rw [hsame.mp hlost, ← hr.value_eq] at hbefore
  split at hunpack
  · rename_i hexponent
    have hparts : HasParts (x + step) t := ⟨hunpack, hexponent⟩
    rw [hparts.value_eq]
    exact ⟨hparts.isFinite, hbefore⟩
  · rename_i hmore
    have hexponent := not_le.mp hmore
    have hdirection := Parts.div_pos_of_overflow hvalue hround (lt_of_le_of_lt hp.le hexponent)
    have hless := Parts.abs_div_lt hvalue (lt_of_le_of_lt hr.le hexponent)
    rw [hr.value_eq] at hbefore
    rw [abs_of_pos hdirection] at hless
    linarith [le_abs_self (r.value / value step)]

/-! ## The whole walk -/

/-- Each number that is not the last is half a step further than the one before it, and none is
further from zero than so many steps. -/
theorem exists_yields {k : ℕ} (hx : x.isFinite = true)
    (hmoves : ∀ c : Float, c.isFinite = true → place step x ≤ place step c →
      GoesOn stop step c → c + step ≠ c)
    (hk : 2 ^ 55 - place step x < k / 2) :
    ∃ items, (Walk.range x stop step).Yields items ∧ items.length ≤ k + 1 := by
  induction k generalizing x with
  | zero =>
    refine ⟨[], .done (next_of_not_goesOn fun hgoes => ?_), Nat.zero_le _⟩
    have hbound := (place_add hstep hne hx (hmoves x hx le_rfl hgoes)).1
    rw [Nat.cast_zero, zero_div] at hk
    linarith [le_abs_self (place step x)]
  | succ k ih =>
    by_cases hgoes : GoesOn stop step x
    · have hnext := next_of_goesOn hgoes
      have hmove := (place_add hstep hne hx (hmoves x hx le_rfl hgoes)).2
      rcases isFinite_add_or hstep hne hx with hfinite | hover
      · have hfurther := hmove hfinite
        obtain ⟨items, hitems, hlength⟩ := ih hfinite
          (fun c hc hle => hmoves c hc (by linarith)) (by push_cast at hk; linarith)
        exact ⟨_, .more hnext hitems, Nat.succ_le_succ hlength⟩
      · exact ⟨_, .more hnext (.done (next_of_not_goesOn (hover stop))), by simp⟩
    · exact ⟨[], .done (next_of_not_goesOn hgoes), Nat.zero_le _⟩

/-- A range never gets beyond a number that swallows its step. -/
theorem not_yields_of_lost (hstop : stop.isFinite = true) (hc : c.isFinite = true)
    (hgoes : GoesOn stop step c) (hlost : c + step = c) {items : List Value}
    (hx : x.isFinite = true) (hle : place step x ≤ place step c) :
    ¬(Walk.range x stop step).Yields items := by
  induction items generalizing x with
  | nil =>
    rintro (hnone | -)
    have hon : GoesOn stop step x := by
      rw [goesOn_iff hstep hne hstop hc] at hgoes
      rw [goesOn_iff hstep hne hstop hx]
      exact lt_of_le_of_lt hle hgoes
    cases hnone.symm.trans (next_of_goesOn hon)
  | cons v items ih =>
    rintro (- | ⟨hnext, hrest⟩)
    by_cases hon : GoesOn stop step x
    · cases hnext.symm.trans (next_of_goesOn hon)
      obtain ⟨hfinite, hbefore⟩ := place_add_le hstep hne hx hc hlost hle
      exact ih hfinite hbefore hrest
    · cases hnext.symm.trans (next_of_not_goesOn hon)

variable (hstart : start.isFinite = true)

include hstart

theorem Stalls.not_yields (h : Stalls start stop step c) (hstop : stop.isFinite = true)
    (items : List Value) : ¬(Walk.range start stop step).Yields items :=
  not_yields_of_lost hstep hne hstop h.finite h.goesOn h.lost hstart
    ((reached_iff hstep hne hstart h.finite).mp h.reached)

omit hstart in
/-- A number that swallows the step is so many times larger. -/
theorem Stalls.le_abs_value (h : Stalls start stop step c) :
    2 ^ 53 * |value step| ≤ |value c| := by
  obtain ⟨p, t, hp, hround, -, hsame⟩ := exists_stepped hstep hne h.finite
  obtain ⟨d, hd⟩ := exists_hasParts hstep
  have hvalue := value_ne_zero hstep hne
  rw [hd.value_eq] at hround hvalue
  rw [hd.value_eq, hp.value_eq]
  exact Parts.le_abs_of_lost hvalue hround (hsame.mp h.lost)

theorem Stalls.toList?_eq_none (h : Stalls start stop step c) (hstop : stop.isFinite = true) :
    (Walk.range start stop step).toList? = none := by
  cases hlist : (Walk.range start stop step).toList? with
  | none => rfl
  | some items =>
    obtain ⟨rest, -, hyields, -⟩ := Walk.yields_of_collect hlist
    exact absurd hyields (h.not_yields hstep hne hstart hstop rest)

/-- Without a lost step a range ends, and long before a walk is taken for endless. -/
theorem exists_toList? (h : ¬∃ c, Stalls start stop step c) :
    ∃ items, (Walk.range start stop step).toList? = some items := by
  have hmoves : ∀ c : Float, c.isFinite = true → place step start ≤ place step c →
      GoesOn stop step c → c + step ≠ c :=
    fun c hc hle hgoes hlost =>
      h ⟨c, hc, (reached_iff hstep hne hstart hc).mpr hle, hgoes, hlost⟩
  by_cases hgoes : GoesOn stop step start
  · have hbound := (place_add hstep hne hstart (hmoves start hstart le_rfl hgoes)).1
    have hsteps : 2 ^ 55 - place step start < ((2 ^ 57 + 1 : ℕ) : ℚ) / 2 := by
      push_cast
      linarith [neg_le_of_abs_le hbound]
    obtain ⟨items, hitems, hlength⟩ := exists_yields hstep hne hstart hmoves hsteps
    exact ⟨items, Walk.collect_of_yields hitems
      (lt_of_le_of_lt hlength (by norm_num [Walk.bound])) []⟩
  · exact ⟨[], Walk.collect_of_yields (.done (next_of_not_goesOn hgoes))
      (by norm_num [Walk.bound]) []⟩

end

/-! ## Functions that walk -/

theorem Walk.count_eq (w : Walk Value) (fuel : ℕ) (met : List Value) :
    w.count fuel met.length = (w.collect fuel met).map List.length := by
  induction fuel generalizing w met with
  | zero => rfl
  | succ fuel ih =>
    unfold count collect
    split
    · simp
    · rename_i v rest _
      exact ih rest (v :: met)

/-- The value is a range with these numbers. -/
def Value.IsRange (v : Value) (start stop step : Float) : Prop :=
  ∃ id, v.datum = .iterator id false (.range start stop step)

/-- The call walks through all of `v`, without a look at whether scripts are to stop. -/
inductive WalksThrough (v : Value) : String → List Value → Prop
  | length : WalksThrough v "length" [v]
  | sort : WalksThrough v "sort" [v]
  | sliceFrom (start : Value) : WalksThrough v "slice" [v, start]
  | slice (start stop : Value) : WalksThrough v "slice" [v, start, stop]
  | join (separator : Value) : WalksThrough v "join" [separator, v]

namespace Language

/-- However operands come to have these values, a call of the function on them does not end. -/
def NeverEnds (lang : Language) (name : String) (values : List Value) : Prop :=
  ∀ (run : Expr → Lazy) (kind : Kind) (operands : List Lazy) (s t : State),
    Lazy.forceAll operands s = .ok values t →
      applyCall lang run name kind operands s = .error .endless t

/-- However operands come to have these values, a call of the function on them ends, with a value
or a fault. -/
def Ends (lang : Language) (name : String) (values : List Value) : Prop :=
  ∀ (run : Expr → Lazy) (kind : Kind) (operands : List Lazy) (s t u : State),
    Lazy.forceAll operands s = .ok values t →
      applyCall lang run name kind operands s ≠ .error .endless u

end Language

section

variable {v : Value} {start stop step : Float} (hv : v.IsRange start stop step)

include hv

theorem Value.IsRange.elements_eq (t : State) :
    v.elements t = Run.ended (Walk.range start stop step).toList? t := by
  obtain ⟨id, hv⟩ := hv
  obtain ⟨b, datum⟩ := v
  cases hv
  rfl

theorem Value.IsRange.length_eq (t : State) :
    Library.length v t =
      (do
        let items ← v.elements
        return .number (.ofNat items.length) : Run Value) t := by
  obtain ⟨id, hv⟩ := hv
  obtain ⟨b, datum⟩ := v
  cases hv
  have hcount : (Walk.range start stop step).length? =
      (Walk.range start stop step).toList?.map List.length := Walk.count_eq _ _ []
  change (Run.ended (Walk.range start stop step).length? >>= _) t =
    (Run.ended (Walk.range start stop step).toList? >>= _) t
  rw [hcount]
  cases (Walk.range start stop step).toList? <;> rfl

/-- All these functions first take all elements, and what they do with them ends. -/
theorem WalksThrough.exists_function {name : String} {values : List Value}
    (h : WalksThrough v name values) :
    ∃ arity f, ∃ answer : List Value → Except Cause Value,
      Language.standard.function? name = some (.eager arity f) ∧
      ∀ t, f values t = (do
        let items ← v.elements
        Run.ofExcept (answer items) : Run Value) t := by
  have hlength := hv.length_eq
  obtain ⟨id, hv⟩ := hv
  obtain ⟨b, datum⟩ := v
  cases hv
  cases h with
  | length => exact ⟨_, _, fun items => .ok (.number (.ofNat items.length)), rfl, hlength⟩
  | sort => exact ⟨_, _, fun items => .ok (.list (Value.sort items)), rfl, fun _ => rfl⟩
  | sliceFrom i =>
    exact ⟨_, _, fun items => (Library.sliceOf items i none).map .list, rfl, fun _ => rfl⟩
  | slice i j =>
    exact ⟨_, _, fun items => (Library.sliceOf items i (some j)).map .list, rfl, fun _ => rfl⟩
  | join separator =>
    exact ⟨_, _, fun items => .ok (.text (separator.display.intercalate (Value.displayAll items))),
      rfl, fun _ => rfl⟩

end

theorem Language.applyCall_of_eager {lang : Language} {name : String} {arity : Arity}
    {f : List Value → Run Value} (hf : lang.function? name = some (.eager arity f))
    {operands : List Lazy} {values : List Value} {s t : State}
    (hvalues : Lazy.forceAll operands s = .ok values t) (run : Expr → Lazy) (kind : Kind) :
    applyCall lang run name kind operands s = f values t := by
  simp only [applyCall, hf, Native.eager]
  cases hresult : f values t with
  | ok answer u =>
    have hcall : (do
        let values ← Lazy.forceAll operands
        let answer ← f values
        return Lazy.of answer : Run Lazy) s = .ok (Lazy.of answer) u := by
      rw [Run.bind_of_ok hvalues, Run.bind_of_ok hresult]
      rfl
    rw [Run.bind_of_ok hcall]
    rfl
  | error i u =>
    refine Run.bind_of_error ?_
    rw [Run.bind_of_ok hvalues, Run.bind_of_error hresult]

theorem exists_isRange {start stop step : Float} (hne : (step == 0) = false) (t : State) :
    ∃ v u, Library.range [.number start, .number stop, .number step] t = .ok v u ∧
      v.IsRange start stop step := by
  have hrange : Library.range [.number start, .number stop, .number step] t =
      Library.rangeOf start stop step t := rfl
  rw [hrange, Library.rangeOf, if_neg (by simp [hne])]
  exact ⟨_, _, rfl, _, rfl⟩

section

variable {lang : Language} (hlang : lang.HasStandard ["range", "length", "sort", "slice", "join"])
  {v : Value} {start stop step : Float} (hv : v.IsRange start stop step) {name : String}
  {values : List Value} (h : WalksThrough v name values)

include hlang hv h

/-- What such a call comes to depends on the elements alone. -/
theorem WalksThrough.exists_applyCall :
    ∃ answer : List Value → Except Cause Value,
      ∀ (run : Expr → Lazy) (kind : Kind) (operands : List Lazy) (s t : State),
        Lazy.forceAll operands s = .ok values t →
          applyCall lang run name kind operands s =
            (Run.ended (Walk.range start stop step).toList? >>= fun items =>
              Run.ofExcept (answer items)) t := by
  obtain ⟨arity, f, answer, hf, hanswer⟩ := h.exists_function hv
  have hname : lang.function? name = Language.standard.function? name := by
    refine hlang name ?_
    cases h <;> simp
  refine ⟨answer, fun run kind operands s t hvalues => ?_⟩
  have helements : v.elements = Run.ended (Walk.range start stop step).toList? :=
    funext hv.elements_eq
  rw [Language.applyCall_of_eager (hname.trans hf) hvalues, hanswer, helements]

theorem WalksThrough.neverEnds (hlist : (Walk.range start stop step).toList? = none) :
    lang.NeverEnds name values := by
  intro run kind operands s t hvalues
  obtain ⟨answer, hcall⟩ := h.exists_applyCall hlang hv
  rw [hcall run kind operands s t hvalues, hlist]
  rfl

theorem WalksThrough.ends {items : List Value}
    (hlist : (Walk.range start stop step).toList? = some items) : lang.Ends name values := by
  intro run kind operands s t u hvalues
  obtain ⟨answer, hcall⟩ := h.exists_applyCall hlang hv
  have hitems : Run.ended (some items) t = .ok items t := rfl
  rw [hcall run kind operands s t hvalues, hlist, Run.bind_of_ok hitems]
  cases answer items with
  | ok value => exact nofun
  | error cause => exact nofun

end

/-- A range ends unless it comes to a number that swallows the step, which is so many times larger
than the step. If it ends, so does every call that walks through all of it, and otherwise no such
call does. -/
theorem range_ends_unless_step_is_lost {lang : Language}
    (hlang : lang.HasStandard ["range", "length", "sort", "slice", "join"])
    {start stop step : Float} (hstart : start.isFinite = true) (hstop : stop.isFinite = true)
    (hstep : step.isFinite = true) (hne : (step == 0) = false) :
    (∀ (run : Expr → Lazy) (kind : Kind) (operands : List Lazy) (s t : State),
      Lazy.forceAll operands s = .ok [.number start, .number stop, .number step] t →
        ∃ v u, applyCall lang run "range" kind operands s = .ok v u ∧
          v.IsRange start stop step) ∧
    ((∃ items, (Walk.range start stop step).Yields items) ↔ ¬∃ c, Stalls start stop step c) ∧
    (∀ c, Stalls start stop step c → 2 ^ 53 * |value step| ≤ |value c|) ∧
    ∀ v : Value, v.IsRange start stop step → ∀ name values, WalksThrough v name values →
      ((∃ c, Stalls start stop step c) → lang.NeverEnds name values) ∧
      ((¬∃ c, Stalls start stop step c) → lang.Ends name values) := by
  refine ⟨fun run kind operands s t hvalues => ?_, ⟨?_, fun h => ?_⟩,
    fun c hc => hc.le_abs_value hstep hne, fun v hv name values hwalks => ⟨?_, fun h => ?_⟩⟩
  · rw [Language.applyCall_of_eager (hlang "range" (by simp)) hvalues]
    exact exists_isRange hne t
  · rintro ⟨items, hitems⟩ ⟨c, hc⟩
    exact hc.not_yields hstep hne hstart hstop items hitems
  · obtain ⟨items, hitems⟩ := exists_toList? hstep hne hstart h
    obtain ⟨rest, -, hyields, -⟩ := Walk.yields_of_collect hitems
    exact ⟨rest, hyields⟩
  · rintro ⟨c, hc⟩
    exact hwalks.neverEnds hlang hv (hc.toList?_eq_none hstep hne hstart hstop)
  · obtain ⟨items, hitems⟩ := exists_toList? hstep hne hstart h
    exact hwalks.ends hlang hv hitems

namespace Swallowed

/-- The least number that swallows a step of one. -/
def start : Float := 9007199254740992

def stop : Float := 9007199254740994

theorem stalls : Stalls start stop 1 start where
  finite := by decide
  reached := .inl (by decide)
  goesOn := .inl (by decide)
  lost := by decide

end Swallowed

open Swallowed in
/-- Between these two finite numbers a step of one never ends. -/
theorem range_past_53_bits_never_ends :
    start.isFinite = true ∧ stop.isFinite = true ∧ (1 : Float).isFinite = true ∧
      ((1 : Float) == 0) = false ∧ ¬∃ items, (Walk.range start stop 1).Yields items := by
  have hstart : start.isFinite = true := stalls.finite
  have hstop : stop.isFinite = true := by decide
  have hone : (1 : Float).isFinite = true := by decide
  have hne : ((1 : Float) == 0) = false := by decide
  refine ⟨hstart, hstop, hone, hne, ?_⟩
  rintro ⟨items, hitems⟩
  exact stalls.not_yields hone hne hstart hstop items hitems

open Swallowed in
/-- Two numbers are sorted, and the others are counted without end. -/
theorem two_numbers_are_sorted :
    Language.standard.HasStandard ["range", "length", "sort", "slice", "join"] ∧
    (0 : Float).isFinite = true ∧ (2 : Float).isFinite = true ∧ (1 : Float).isFinite = true ∧
    ((1 : Float) == 0) = false ∧ start.isFinite = true ∧ stop.isFinite = true ∧
    Language.standard.Ends "sort" [⟨none, .iterator 0 false (.range 0 2 1)⟩] ∧
    Language.standard.NeverEnds "length" [⟨none, .iterator 0 false (.range start stop 1)⟩] := by
  have hlang := Language.hasStandard_standard ["range", "length", "sort", "slice", "join"]
  have hzero : (0 : Float).isFinite = true := by decide
  have htwo : (2 : Float).isFinite = true := by decide
  have hone : (1 : Float).isFinite = true := by decide
  have hne : ((1 : Float) == 0) = false := by decide
  have hstart : start.isFinite = true := stalls.finite
  have hstop : stop.isFinite = true := by decide
  have hyields : ∃ items, (Walk.range 0 2 1).Yields items :=
    ⟨_, .more (next_of_goesOn (.inl (by decide)))
      (.more (next_of_goesOn (.inl (by decide)))
        (.done (next_of_not_goesOn (by unfold GoesOn; decide))))⟩
  obtain ⟨-, hiff, -, hsorts⟩ := range_ends_unless_step_is_lost hlang hzero htwo hone hne
  obtain ⟨-, -, -, hcounts⟩ := range_ends_unless_step_is_lost hlang hstart hstop hone hne
  exact ⟨hlang, hzero, htwo, hone, hne, hstart, hstop,
    (hsorts _ ⟨0, rfl⟩ _ _ .sort).2 (hiff.mp hyields),
    (hcounts _ ⟨0, rfl⟩ _ _ .length).1 ⟨start, stalls⟩⟩

end TickScript
