-- What stands in the tables of the standard language. An operator or function that is
-- looked up there is one of those that the library gives, so a property of them all is
-- shown table by table.
import TickScript.Library
import TickScript.Proofs.Lexemes
import TickScript.Proofs.Runs

namespace TickScript

open Library

/-! ## Functions -/

theorem mem_of_lookup {α : Type} {name : String} {a : α} {entries : List (String × α)}
    (h : entries.lookup name = some a) : (name, a) ∈ entries := by
  obtain ⟨before, after, rfl, _⟩ := List.lookup_eq_some_iff.mp h
  simp

theorem Language.functions_addFunctions (lang : Language) (functions : List (String × Native)) :
    (lang.addFunctions functions).functions = functions.reverse ++ lang.functions := by
  unfold addFunctions
  induction functions generalizing lang with
  | nil => rfl
  | cons entry rest ih =>
    rw [List.foldl_cons, ih]
    simp [addFunction]

/-- What holds of each function of the tables holds of each function of the standard
language. -/
theorem Language.function?_standard {P : Native → Prop}
    (hcontrol : ∀ entry ∈ Library.control, P entry.2) (hlists : ∀ entry ∈ lists, P entry.2)
    (hvalues : ∀ entry ∈ values, P entry.2) (hmath : ∀ entry ∈ math, P entry.2)
    (hpatterns : ∀ entry ∈ patterns, P entry.2)
    {name : String} {f : Native} (h : Language.standard.function? name = some f) : P f := by
  have hmem := mem_of_lookup h
  have hnone : (withAssignments (withSearch (withOperators .bare))).functions = [] := rfl
  unfold standard at hmem
  rw [functions_addFunctions, hnone, List.append_nil, List.mem_reverse] at hmem
  simp only [List.mem_append] at hmem
  rcases hmem with (((hf | hf) | hf) | hf) | hf
  · exact hcontrol _ hf
  · exact hlists _ hf
  · exact hvalues _ hf
  · exact hmath _ hf
  · exact hpatterns _ hf

/-! ## Operators -/

/-- The roles of the standard operators between two operands. -/
inductive StandardRole : BinaryRole → Prop
  | element : StandardRole (.evaluates (onValues elementAt))
  | search : StandardRole (.evaluates (onValues fun a b => Run.ofExcept (find a b)))
  | arithmetic (op : Arithmetic) : StandardRole (.evaluates (arithmetic op))
  | relation (holds : Value → Value → Bool) : StandardRole (.evaluates (relation holds))
  | conjunction : StandardRole (.evaluates conjunction)
  | disjunction : StandardRole (.evaluates disjunction)
  | assignPlain : StandardRole (.assigns assignPlain)
  | assignSum : StandardRole (.assigns assignSum)
  | swap : StandardRole (.assigns swap)
  | defines : StandardRole .defines
  | sequences : StandardRole .sequences

theorem Language.binary?_standard {spelling : String} {op : BinaryOperator}
    (h : Language.standard.binary? spelling = some op) : StandardRole op.role := by
  have hall : ∀ entry ∈ Language.standard.binary, StandardRole entry.2.role := by
    have : Language.standard.binary =
        (withAssignments (withSearch (withOperators .bare))).binary := rfl
    rw [this]
    simp only [withAssignments, withSearch, withOperators, addAssignment, addOperator, addUnary,
      addBinary, bare, List.forall_mem_cons]
    exact ⟨.swap, .assignSum, .assignPlain, .search, .disjunction, .conjunction, .relation _,
      .relation _, .relation _, .relation _, .relation _, .relation _, .arithmetic _,
      .arithmetic _, .arithmetic _, .arithmetic _, .arithmetic _, .arithmetic _, .element,
      .sequences, .defines, by simp [Language.empty]⟩
  exact hall _ (mem_of_lookup h)

theorem Language.unary?_standard {spelling : String} {op : UnaryOperator}
    (h : Language.standard.unary? spelling = some op) :
    op.apply = minus ∨ op.apply = plus ∨ op.apply = negation := by
  have hmem := mem_of_lookup h
  have : Language.standard.unary = [("!", ⟨60, negation⟩), ("+", ⟨60, plus⟩), ("-", ⟨60, minus⟩)] :=
    rfl
  rw [this] at hmem
  simp only [List.mem_cons, Prod.mk.injEq, List.not_mem_nil, or_false] at hmem
  rcases hmem with ⟨_, rfl⟩ | ⟨_, rfl⟩ | ⟨_, rfl⟩
  · exact Or.inr (Or.inr rfl)
  · exact Or.inr (Or.inl rfl)
  · exact Or.inl rfl

/-! ## Registrations -/

/-- The spellings of the standard operators, in the order in which they are told. -/
def standardSpellings : List String :=
  ["->", ";", ":", "-", "+", "!", "^", "*", "/", "%", "+", "-", ">", ">=", "<", "<=", "==", "!=",
    "&&", "||", "~", "=", "+=", "<>"]

theorem Language.addFunctions_built (rs : List Registration) (functions : List (String × Native)) :
    (built rs).addFunctions functions =
      built (rs ++ functions.map fun entry => .function entry.1 entry.2) := by
  simp only [addFunctions, built, List.foldl_append, List.foldl_map]
  rfl

/-- A host can build the standard language. -/
theorem Language.standard_eq_built :
    ∃ rs, Language.standard = built rs ∧ spellings rs = standardSpellings := by
  have hoperator : ∀ rs s n side apply, (built rs).addOperator s n side apply =
      built (rs ++ [.operator s n side apply]) := fun rs s n side apply =>
    (built_concat rs (.operator s n side apply)).symm
  have hassignment : ∀ rs s n apply, (built rs).addAssignment s n apply =
      built (rs ++ [.assignment s n apply]) := fun rs s n apply =>
    (built_concat rs (.assignment s n apply)).symm
  have hunary : ∀ rs s n apply, (built rs).addUnary s n apply = built (rs ++ [.unary s n apply]) :=
    fun rs s n apply => (built_concat rs (.unary s n apply)).symm
  have hbare : bare = built [] := rfl
  unfold standard withAssignments withSearch withOperators
  rw [hbare]
  simp only [hoperator, hassignment, hunary, addFunctions_built]
  exact ⟨_, rfl, rfl⟩

theorem plain_standardSpellings : PlainSpellings standardSpellings := by
  -- Run as a check: deciding the quantifier over characters may go through all of them.
  have hplain : (standardSpellings.all fun op =>
      op.toList.all fun c => c != '(' && !Text.isBlank c) = true := by
    decide
  intro op hop c hc
  have hchar := List.all_eq_true.mp (List.all_eq_true.mp hplain op hop) c hc
  simpa using hchar

theorem Language.knows_standard : Language.standard.operators.Knows standardSpellings := by
  obtain ⟨rs, hstandard, hspellings⟩ := standard_eq_built
  rw [hstandard, ← hspellings]
  exact knows_built rs

end TickScript
