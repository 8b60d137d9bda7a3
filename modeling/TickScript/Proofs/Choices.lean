-- Choices are lazy. `if` goes through its operands in pairs and forces a condition only after all
-- before it were false, and `&&` and `||` force their right operand only if the left one leaves the
-- matter open. What is not forced can be anything.
import TickScript.Proofs.Blame

namespace TickScript

open Library

/-! ## Faults that have a site already -/

/-- To locate faults that have a site changes nothing. -/
theorem Run.Sited.located_eq {α : Type} {x : Run α} (h : Sited x) (site : Site) :
    Run.located site x = x := by
  funext s
  rcases hx : x s with ⟨a, t⟩ | ⟨i, t⟩
  · rw [located_of_ok site hx]
  · rw [located_of_error site hx]
    cases i with
    | fault f =>
      have hsite := h s f t hx
      obtain ⟨cause, _ | first, procedure⟩ := f
      · cases hsite
      · rfl
    | stopped | endless => rfl

/-- Whatever an operand is wanted for, its faults have sites. -/
def Lazy.Sited (operand : Lazy) : Prop := ∀ kind, Run.Sited (operand kind)

theorem Lazy.Sited.truth {operand : Lazy} (h : operand.Sited) : Run.Sited operand.truth :=
  (h .boolean).bind fun _ => .of_ok fun s => ⟨_, s, rfl⟩

theorem sited_denoteAll (lang : Language) (run : Expr → Lazy) (args : List Expr) :
    ∀ operand ∈ Expr.denoteAll lang run args, operand.Sited := by
  rw [Expr.denoteAll_eq_map, List.forall_mem_map]
  exact fun e _ kind => sited_denote lang run e kind

/-! ## Chains of choices -/

/-- The operand that is chosen, evaluated in its turn. -/
def chosen (operands : List Lazy) : Lazy := fun kind => do
  let operand ← choose operands
  operand kind

theorem chosen_singleton (otherwise : Lazy) : chosen [otherwise] = otherwise := rfl

/-- One step of a choice. -/
theorem chosen_cons (condition consequence : Lazy) (rest : List Lazy) (kind : Kind) :
    chosen (condition :: consequence :: rest) kind =
      condition.truth >>= fun holds =>
        if holds then consequence kind else chosen rest kind := by
  simp only [chosen, choose, bind_assoc]
  congr 1
  funext holds
  cases holds <;> rfl

section Steps

variable {condition : Lazy} (consequence : Lazy) (rest : List Lazy) (kind : Kind) {s t : State}

theorem chosen_of_true (h : condition.truth s = .ok true t) :
    chosen (condition :: consequence :: rest) kind s = consequence kind t := by
  rw [chosen_cons, Run.bind_of_ok h]
  rfl

theorem chosen_of_false (h : condition.truth s = .ok false t) :
    chosen (condition :: consequence :: rest) kind s = chosen rest kind t := by
  rw [chosen_cons, Run.bind_of_ok h]
  rfl

theorem chosen_of_error {i : Interrupt} (h : condition.truth s = .error i t) :
    chosen (condition :: consequence :: rest) kind s = .error i t := by
  rw [chosen_cons, Run.bind_of_error h]

end Steps

/-- A choice among many operands is one between two, the second of them a choice. -/
theorem chosen_nested (condition consequence : Lazy) (rest : List Lazy) :
    chosen (condition :: consequence :: rest) = chosen [condition, consequence, chosen rest] := by
  funext kind
  rw [chosen_cons, chosen_cons, chosen_singleton]

theorem sited_chosen {operands : List Lazy} (h : ∀ operand ∈ operands, operand.Sited) :
    (chosen operands).Sited := by
  induction operands using choose.induct with
  | case1 condition consequence rest ih =>
    obtain ⟨hcondition, hconsequence, hrest⟩ := by simpa using h
    intro kind
    rw [chosen_cons]
    refine hcondition.truth.bind fun holds => ?_
    cases holds with
    | true => exact hconsequence kind
    | false => exact ih hrest kind
  | case2 otherwise => exact h otherwise (by simp)
  | case3 => exact fun _ => .of_ok fun s => ⟨_, s, rfl⟩

/-! ## What a choice forces -/

/-- The operand at this place is forced by the choice that begins in the given state: a condition
after all before it were false, the consequence of a condition that was true, or what comes last
without a condition. -/
inductive Forces : List Lazy → State → Nat → Prop
  | condition (condition consequence : Lazy) (rest : List Lazy) (s : State) :
      Forces (condition :: consequence :: rest) s 0
  | consequence {condition : Lazy} (consequence : Lazy) (rest : List Lazy) {s t : State}
      (h : condition.truth s = .ok true t) : Forces (condition :: consequence :: rest) s 1
  | later {condition : Lazy} (consequence : Lazy) {rest : List Lazy} {s t : State} {i : Nat}
      (h : condition.truth s = .ok false t) (hrest : Forces rest t i) :
      Forces (condition :: consequence :: rest) s (i + 2)
  | otherwise (otherwise : Lazy) (s : State) : Forces [otherwise] s 0

/-- Operands that are not forced do not matter. -/
theorem chosen_congr {operands others : List Lazy} {s : State}
    (hlength : others.length = operands.length)
    (h : ∀ i, Forces operands s i → others[i]? = operands[i]?) (kind : Kind) :
    chosen others kind s = chosen operands kind s := by
  induction operands using choose.induct generalizing others s with
  | case1 condition consequence rest ih =>
    obtain _ | ⟨first, _ | ⟨second, more⟩⟩ := others
    · simp at hlength
    · simp at hlength
    obtain rfl : first = condition := by simpa using h 0 (.condition _ _ _ _)
    rcases hcondition : first.truth s with ⟨_ | _, t⟩ | ⟨i, t⟩
    · rw [chosen_of_false _ _ _ hcondition, chosen_of_false _ _ _ hcondition]
      refine ih (by simpa using hlength) fun i hi => ?_
      simpa using h (i + 2) (.later consequence hcondition hi)
    · obtain rfl : second = consequence := by simpa using h 1 (.consequence _ _ hcondition)
      rw [chosen_of_true _ _ _ hcondition, chosen_of_true _ _ _ hcondition]
    · rw [chosen_of_error _ _ _ hcondition, chosen_of_error _ _ _ hcondition]
  | case2 otherwise =>
    obtain ⟨other, rfl⟩ := List.length_eq_one_iff.mp hlength
    obtain rfl : other = otherwise := by simpa using h 0 (.otherwise _ _)
    rfl
  | case3 =>
    obtain rfl := List.length_eq_zero_iff.mp hlength
    rfl

/-- The operand never has a value. -/
def Lazy.Fails (operand : Lazy) : Prop := ∀ kind s, ∃ i t, operand kind s = .error i t

theorem Lazy.Fails.truth {operand : Lazy} (h : operand.Fails) (s : State) :
    ∃ i t, operand.truth s = .error i t := by
  obtain ⟨i, t, hfails⟩ := h .boolean s
  exact ⟨i, t, Run.bind_of_error hfails⟩

/-- Operands that are forced do matter: with one that never has a value there, the choice has
none. -/
theorem chosen_set_of_forces {operands : List Lazy} {s : State} {i : Nat} (h : Forces operands s i)
    {failing : Lazy} (hfails : failing.Fails) (kind : Kind) :
    ∃ j t, chosen (operands.set i failing) kind s = .error j t := by
  induction h with
  | condition condition consequence rest s =>
    obtain ⟨j, t, htruth⟩ := hfails.truth s
    exact ⟨j, t, chosen_of_error _ _ _ htruth⟩
  | @consequence condition consequence rest s t h =>
    obtain ⟨j, u, hkind⟩ := hfails kind t
    exact ⟨j, u, (chosen_of_true _ _ _ h).trans hkind⟩
  | later consequence h _ ih =>
    obtain ⟨j, u, hrest⟩ := ih
    exact ⟨j, u, (chosen_of_false _ _ _ h).trans hrest⟩
  | otherwise otherwise s => exact hfails kind s

/-! ## Connectives -/

/-- The operators that combine the truth of two operands. -/
inductive Connective where
  | both
  | either
deriving DecidableEq

namespace Connective

def operator : Connective → String
  | .both => "&&"
  | .either => "||"

def apply : Connective → Kind → Lazy → Lazy → Run Value
  | .both => conjunction
  | .either => disjunction

/-- The truth of the left operand that decides the matter. -/
def decidedBy : Connective → Bool
  | .both => false
  | .either => true

variable (c : Connective) (kind : Kind) {left : Lazy} (right : Lazy) {s t : State}

/-- Both connectives ask for the right operand only if the left one does not decide. -/
theorem apply_eq : c.apply kind left right = (do
    let a ← left.truth
    if a = c.decidedBy then return .boolean c.decidedBy
    else
      let b ← right.truth
      return .boolean b) := by
  cases c with
  | both =>
    refine bind_congr fun a => ?_
    cases a <;> rfl
  | either =>
    refine bind_congr fun a => ?_
    cases a <;> rfl

theorem apply_of_decided (h : left.truth s = .ok c.decidedBy t) :
    c.apply kind left right s = .ok (.boolean c.decidedBy) t := by
  rw [apply_eq, Run.bind_of_ok h, if_pos rfl]
  rfl

theorem apply_of_open (h : left.truth s = .ok (!c.decidedBy) t) :
    c.apply kind left right s =
      (right.truth >>= fun b => pure (.boolean b) : Run Value) t := by
  rw [apply_eq, Run.bind_of_ok h, if_neg (by simp)]

theorem apply_of_error {i : Interrupt} (h : left.truth s = .error i t) :
    c.apply kind left right s = .error i t := by
  rw [apply_eq, Run.bind_of_error h]

/-- The right operand does not matter unless the left one leaves the matter open. -/
theorem apply_congr (h : ∀ t, left.truth s ≠ .ok (!c.decidedBy) t) (other : Lazy) :
    c.apply kind left other s = c.apply kind left right s := by
  rcases hleft : left.truth s with ⟨b, t⟩ | ⟨i, t⟩
  · have hb : b = c.decidedBy := by
      by_contra hne
      rw [Bool.eq_not_of_ne hne] at hleft
      exact h t hleft
    subst hb
    rw [apply_of_decided c kind _ hleft, apply_of_decided c kind _ hleft]
  · rw [apply_of_error c kind _ hleft, apply_of_error c kind _ hleft]

end Connective

/-! ## In scripts -/

/-- The choices and connectives of the language are the standard ones. -/
structure Language.Decides (lang : Language) : Prop where
  choice : lang.function? "if" = some choosing
  connective : ∀ c : Connective, ∃ precedence side,
    lang.binary? c.operator = some ⟨precedence, side, .evaluates c.apply⟩

theorem Language.decides_standard : Language.standard.Decides where
  choice := rfl
  connective c := by
    cases c with
    | both => exact ⟨5, .left, rfl⟩
    | either => exact ⟨4, .left, rfl⟩

section Scripts

variable {lang : Language} (hlang : lang.Decides) (run : Expr → Lazy)

include hlang

/-- Faults come out of a choice as they came out of its operands. -/
theorem denote_choice (args : List Expr) (site : Site) :
    (Expr.call "if" args site).denote lang run = chosen (Expr.denoteAll lang run args) := by
  funext kind
  have hcall : (Expr.call "if" args site).denote lang run kind =
      Run.located site (chosen (Expr.denoteAll lang run args) kind) := by
    simp only [Expr.denote, applyCall, hlang.choice]
    rfl
  rw [hcall, (sited_chosen (sited_denoteAll lang run args) kind).located_eq]

theorem denote_connective (c : Connective) (left right : Expr) (site : Site) (kind : Kind) :
    (Expr.binary c.operator left right site).denote lang run kind =
      Run.located site (c.apply kind (left.denote lang run) (right.denote lang run)) := by
  obtain ⟨precedence, side, hop⟩ := hlang.connective c
  simp only [Expr.denote, applyBinary, hop]

end Scripts

/-- A choice among many operands is a chain of choices between two, with the same result, the same
faults at the same sites and the same state at the end. Operands that it does not force can be
replaced by any others; and it forces no more than it must, since with one that never has a value in
the place of an operand that it forces, it has none. The same holds of the right operand of `&&` and
`||`, which is forced only if the left one leaves the matter open. -/
theorem choices_are_lazy {lang : Language} (hlang : lang.Decides) (run : Expr → Lazy) (kind : Kind)
    (s : State) (site : Site) :
    (∀ (condition consequence : Expr) (rest : List Expr) (inner : Site),
      (Expr.call "if" (condition :: consequence :: rest) site).denote lang run kind s =
        (Expr.call "if" [condition, consequence, .call "if" rest inner] site).denote lang run kind
          s) ∧
    (∀ args others : List Expr, others.length = args.length →
      (∀ i, Forces (Expr.denoteAll lang run args) s i → others[i]? = args[i]?) →
      (Expr.call "if" others site).denote lang run kind s =
        (Expr.call "if" args site).denote lang run kind s) ∧
    (∀ (args : List Expr) (i : Nat) (failing : Expr), Forces (Expr.denoteAll lang run args) s i →
      (failing.denote lang run).Fails →
      ∃ j t, (Expr.call "if" (args.set i failing) site).denote lang run kind s = .error j t) ∧
    ∀ (c : Connective) (left right other : Expr),
      ((∀ t, (left.denote lang run).truth s ≠ .ok (!c.decidedBy) t) →
        (Expr.binary c.operator left other site).denote lang run kind s =
          (Expr.binary c.operator left right site).denote lang run kind s) ∧
      ((∃ t, (left.denote lang run).truth s = .ok (!c.decidedBy) t) →
        (other.denote lang run).Fails →
        ∃ j t, (Expr.binary c.operator left other site).denote lang run kind s = .error j t) := by
  refine ⟨fun condition consequence rest inner => ?_, fun args others hlength h => ?_,
    fun args i failing hi hfails => ?_, fun c left right other => ⟨fun h => ?_, ?_⟩⟩
  · rw [denote_choice hlang, denote_choice hlang, Expr.denoteAll, Expr.denoteAll, chosen_nested]
    simp only [Expr.denoteAll, denote_choice hlang]
  · rw [denote_choice hlang, denote_choice hlang]
    refine chosen_congr (by rw [length_denoteAll, length_denoteAll, hlength]) (fun i hi => ?_) kind
    rw [Expr.denoteAll_eq_map, Expr.denoteAll_eq_map, List.getElem?_map, List.getElem?_map, h i hi]
  · obtain ⟨j, t, hset⟩ := chosen_set_of_forces hi hfails kind
    refine ⟨j, t, ?_⟩
    rw [denote_choice hlang, ← hset, Expr.denoteAll_eq_map, Expr.denoteAll_eq_map, List.map_set]
  · rw [denote_connective hlang, denote_connective hlang]
    simp only [Run.located, c.apply_congr kind (right.denote lang run) h (other.denote lang run)]
  · rintro ⟨t, hopen⟩ hfails
    obtain ⟨j, u, hother⟩ := hfails.truth t
    have happly := (c.apply_of_open kind (other.denote lang run) hopen).trans
      (Run.bind_of_error hother)
    rw [denote_connective hlang]
    exact ⟨_, u, Run.located_of_error site happly⟩

/-- In `if('', x, 'go', 'here', x)` the variable need not be there, nor in the nested form. -/
theorem an_untaken_branch_is_not_looked_at :
    let site : Site := ⟨⟨.call, "if", .start⟩, ⟨"if('', x, 'go', 'here', x)", none⟩⟩
    let missing : Expr := .var "x" false site
    let s : State := ⟨.empty, .standard⟩
    let nested : Expr := .call "if" [.text "go", .text "here", missing] site
    Language.standard.Decides ∧
      (Expr.call "if" [.text "", missing, nested] site).denote .standard (evaluate .standard)
        .value s = .ok (.text "here") s ∧
      (Expr.call "if" [.text "", missing, .text "go", .text "here", missing] site).denote .standard
        (evaluate .standard) .value s = .ok (.text "here") s := by
  intro site missing s nested
  have hlaws := choices_are_lazy Language.decides_standard (evaluate .standard) .value s site
  have htaken : (Expr.call "if" [.text "", .text "a", .text "go", .text "here", .text "b"]
      site).denote .standard (evaluate .standard) .value s = .ok (.text "here") s := by
    rfl
  have hflat : (Expr.call "if" [.text "", missing, .text "go", .text "here", missing] site).denote
      .standard (evaluate .standard) .value s = .ok (.text "here") s := by
    rw [← htaken]
    refine hlaws.2.1 _ _ rfl fun i hi => ?_
    cases hi with
    | condition => rfl
    | consequence _ _ h => cases h
    | later _ h hi =>
      cases h
      cases hi with
      | condition => rfl
      | consequence => rfl
      | later _ h => cases h
  exact ⟨Language.decides_standard, (hlaws.1 _ _ _ site).symm.trans hflat, hflat⟩

end TickScript
