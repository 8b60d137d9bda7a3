-- What functions and operators answer. Most of them first evaluate their operands, from left to
-- right, and then go by the values alone. What these answer can be said without a state.
import TickScript.Proofs.Elements

namespace TickScript

/-! ## All elements at once -/

theorem Walk.collect_of_yields {w : Walk Value} {items : List Value} (h : w.Yields items)
    {fuel : Nat} (hfuel : items.length < fuel) (met : List Value) :
    w.collect fuel met = some (met.reverse ++ items) := by
  induction h generalizing fuel met with
  | done hnext =>
    obtain ⟨fuel, rfl⟩ := Nat.exists_eq_succ_of_ne_zero (Nat.ne_of_gt hfuel)
    simp only [collect, hnext, List.append_nil]
  | @more w rest v items hnext _ ih =>
    obtain ⟨fuel, rfl⟩ := Nat.exists_eq_succ_of_ne_zero (Nat.ne_zero_of_lt hfuel)
    simp only [collect, hnext]
    rw [ih (Nat.lt_of_succ_lt_succ hfuel), List.reverse_cons, List.append_assoc,
      List.singleton_append]

theorem Value.HasElements.elements_eq {v : Value} {items : List Value} (h : v.HasElements items)
    (s : State) : v.elements s = .ok items s := by
  obtain ⟨w, hwalk, hyields, hbound⟩ := h.walk s
  unfold Value.elements Walk.toList?
  rw [Run.bind_of_ok hwalk, Walk.collect_of_yields hyields hbound]
  rfl

theorem Value.hasElements_of_list? {v : Value} {items : List Value} (h : v.list? = some items) :
    v.HasElements items := by
  obtain ⟨_, datum⟩ := v
  cases datum <;> cases h
  exact .inl rfl

/-! ## Answers -/

namespace Language

/-- However operands come to have these values, a call of the function on them ends with this
answer, in the state that the operands have left. -/
def Answers (lang : Language) (name : String) (values : List Value) (answer : Value) : Prop :=
  ∀ (run : Expr → Lazy) (kind : Kind) (operands : List Lazy) (s t : State),
    Lazy.forceAll operands s = .ok values t → applyCall lang run name kind operands s = .ok answer t

/-- However operands come to have these values, the operator between them ends with this answer, in
the state that the operands have left. -/
def OperatorAnswers (lang : Language) (spelling : String) (a b answer : Value) : Prop :=
  ∀ (kind : Kind) (left right : Lazy) (s t : State),
    Lazy.forceAll [left, right] s = .ok [a, b] t →
      applyBinary lang spelling kind left right s = .ok answer t

/-- Operands that are values already leave the state alone. -/
theorem forceAll_map_of (values : List Value) (s : State) :
    Lazy.forceAll (values.map Lazy.of) s = .ok values s := by
  induction values with
  | nil => rfl
  | cons v rest ih =>
    have hfirst : Lazy.of v .value s = .ok v s := rfl
    rw [List.map_cons, Lazy.forceAll, Run.bind_of_ok hfirst, Run.bind_of_ok ih]
    rfl

/-- There is one answer at most. -/
theorem Answers.unique {lang : Language} {name : String} {values : List Value}
    {answer other : Value} (h : lang.Answers name values answer)
    (h' : lang.Answers name values other) : answer = other := by
  let start : State := ⟨.empty, {}⟩
  have hvalues := forceAll_map_of values start
  have hsame := (h (fun _ => .of .null) .value _ _ _ hvalues).symm.trans
    (h' (fun _ => .of .null) .value _ _ _ hvalues)
  cases hsame
  rfl

/-- The functions of these names are those of the standard language. -/
def HasStandard (lang : Language) (names : List String) : Prop :=
  ∀ name ∈ names, lang.function? name = standard.function? name

theorem hasStandard_standard (names : List String) : standard.HasStandard names := fun _ _ => rfl

theorem answers_of_eager {lang : Language} {name : String} {arity : Arity}
    {f : List Value → Run Value} (hf : lang.function? name = some (.eager arity f))
    {values : List Value} {answer : Value} (h : ∀ t, f values t = .ok answer t) :
    lang.Answers name values answer := by
  intro run kind operands s t hvalues
  have hcall : (Native.eager arity f).apply run kind operands s = .ok (Lazy.of answer) t := by
    simp only [Native.eager]
    rw [Run.bind_of_ok hvalues, Run.bind_of_ok (h t)]
    rfl
  simp only [applyCall, hf]
  rw [Run.bind_of_ok hcall]
  rfl

theorem operatorAnswers_of_onValues {lang : Language} {spelling : String} {precedence : Nat}
    {side : Side} {f : Value → Value → Run Value}
    (hf : lang.binary? spelling = some ⟨precedence, side, .evaluates (Library.onValues f)⟩)
    {a b answer : Value} (h : ∀ t, f a b t = .ok answer t) :
    lang.OperatorAnswers spelling a b answer := by
  intro kind left right s t hvalues
  obtain ⟨a', u, hleft, hrest⟩ := Run.of_bind_ok hvalues
  obtain ⟨rest, u', hrights, hlist⟩ := Run.of_bind_ok hrest
  obtain ⟨b', w, hright, hnil⟩ := Run.of_bind_ok hrights
  cases hnil
  cases hlist
  simp only [applyBinary, hf, Library.onValues]
  rw [Run.bind_of_ok hleft, Run.bind_of_ok hright]
  exact h t

end Language

end TickScript
