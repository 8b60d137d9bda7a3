-- The nodes of trees. What a node does is made from what its parts mean, so it can be told for any
-- operands in their place. What a language hands on from operands to the whole, its nodes hand on
-- as well, and so do all its trees.
import TickScript.Proofs.Pieces

namespace TickScript

open Library

/-! ## Parts and operands -/

namespace Expr

/-- The trees that a node has as its operands. The body of a definition is none of them. -/
def parts : Expr → List Expr
  | .number _ | .text _ | .var .. | .define .. => []
  | .unary _ operand _ => [operand]
  | .binary _ left right _ => [left, right]
  | .call _ args _ => args
  | .sequence items => items

/-- Where the faults of a node are located. -/
def site? : Expr → Option Site
  | .var _ _ site | .unary _ _ site | .binary _ _ _ site | .call _ _ site => some site
  | .number _ | .text _ | .define .. | .sequence _ => none

theorem sizeOf_lt_of_mem_parts {e part : Expr} (h : part ∈ e.parts) : sizeOf part < sizeOf e := by
  cases e with
  | number | text | var | define => simp [parts] at h
  | unary operator operand site =>
    rw [List.mem_singleton.mp h]
    simp only [unary.sizeOf_spec]
    omega
  | binary operator left right site =>
    simp only [parts, List.mem_cons, List.not_mem_nil, or_false] at h
    rcases h with rfl | rfl
    · simp only [binary.sizeOf_spec]
      omega
    · simp only [binary.sizeOf_spec]
      omega
  | call name args site =>
    have hlt := List.sizeOf_lt_of_mem h
    simp only [parts] at hlt
    simp only [call.sizeOf_spec]
    omega
  | sequence items =>
    have hlt := List.sizeOf_lt_of_mem h
    simp only [parts] at hlt
    simp only [sequence.sizeOf_spec]
    omega

/-- What a node has if its parts have it, every tree has. -/
theorem induction_on_parts {motive : Expr → Prop}
    (node : ∀ e, (∀ part ∈ e.parts, motive part) → motive e) (e : Expr) : motive e :=
  node e fun part h =>
    have : sizeOf part < sizeOf e := sizeOf_lt_of_mem_parts h
    induction_on_parts node part
termination_by sizeOf e

end Expr

/-- Operands one after the other. The result is that of the last. -/
def inOrder : List Lazy → Lazy
  | [] => .of .null
  | [x] => x
  | x :: y :: rest => fun kind => do
    let _ ← x .void
    inOrder (y :: rest) kind

/-- The faults of a computation are located, if there is a place for that. -/
def Run.locatedAt {α : Type} (site : Option Site) (x : Run α) : Run α :=
  site.elim x fun site => Run.located site x

namespace Expr

section Operands

variable (lang : Language) (run : Expr → Lazy)

/-- What a node does with operands in place of its own, but for the locating of its faults. -/
def apply (kind : Kind) (xs : Nat → Lazy) : Expr → Run Value
  | .number x => pure (.number x)
  | .text s => pure (.text s)
  | .var name isTarget _ => readVariable name isTarget
  | .unary operator _ _ => applyUnary lang operator kind (xs 0)
  | .binary operator _ _ _ => applyBinary lang operator kind (xs 0) (xs 1)
  | .call name args _ => applyCall lang run name kind ((List.range args.length).map xs)
  | .define name params body site => do
    defineProcedure { name, params, body, site }
    return .text name
  | .sequence items => inOrder ((List.range items.length).map xs) kind

/-- What a node does with operands in place of its own. -/
def node (kind : Kind) (xs : Nat → Lazy) (e : Expr) : Run Value :=
  Run.locatedAt e.site? (e.apply lang run kind xs)

/-- The operands that a node has by its parts. -/
def operands (e : Expr) (j : Nat) : Lazy := e.parts[j]?.elim (.of .null) (denote lang run)

theorem denoteAll_eq_map (args : List Expr) :
    denoteAll lang run args = args.map (denote lang run) := by
  induction args with
  | nil => rfl
  | cons e rest ih => simp only [denoteAll, ih, List.map_cons]

theorem denoteSequence_eq_inOrder (items : List Expr) :
    denoteSequence lang run items = inOrder (items.map (denote lang run)) := by
  induction items with
  | nil => rfl
  | cons e rest ih =>
    cases rest with
    | nil => rfl
    | cons f rest =>
      simp only [denoteSequence, ih, List.map_cons, inOrder]

theorem map_operands (e : Expr) :
    (List.range e.parts.length).map (e.operands lang run) = e.parts.map (denote lang run) := by
  apply List.ext_getElem
  · simp
  · intro j _ hj
    have hparts : j < e.parts.length := by simpa using hj
    simp [operands, hparts]

/-- A tree means what its node does with the operands that its parts give it. -/
theorem denote_eq_node (e : Expr) (kind : Kind) :
    e.denote lang run kind = e.node lang run kind (e.operands lang run) := by
  have hoperands := e.map_operands lang run
  cases e with
  | number | text | var | unary | binary | define => simp only [denote]; rfl
  | call name args site =>
    simp only [parts] at hoperands
    simp only [denote, node, site?, Run.locatedAt, Option.elim, apply, hoperands, denoteAll_eq_map]
  | sequence items =>
    simp only [parts] at hoperands
    simp only [denote, node, site?, Run.locatedAt, Option.elim, apply, hoperands,
      denoteSequence_eq_inOrder]

end Operands

end Expr

/-! ## Languages -/

/-- What holds of the roles of all operators between operands, of all operators before one and
of all functions of the language. -/
structure Language.Has (binaries : BinaryRole → Prop) (unaries : UnaryOperator → Prop)
    (natives : Native → Prop) (lang : Language) : Prop where
  binary : ∀ {spelling op}, lang.binary? spelling = some op → binaries op.role
  unary : ∀ {spelling op}, lang.unary? spelling = some op → unaries op
  function : ∀ {name f}, lang.function? name = some f → natives f

/-- The operators and functions of the language hand the property on from their operands. -/
abbrev Language.Threads {ι : Type} (P : (α : Type) → (ι → Run α) → Prop)
    (run : ι → Expr → Lazy) : Language → Prop :=
  Language.Has (·.Threads P) (·.Threads P) (·.Threads P run)

/-- The operators of the language are simple and its functions ordinary. -/
abbrev Language.IsOrdinary (Own : (α : Type) → Run α → Prop) : Language → Prop :=
  Language.Has (·.IsSimple Own) (·.IsSimple Own) (·.IsOrdinary Own)

theorem Language.ordinary_standard {Own : (α : Type) → Run α → Prop} :
    Language.standard.IsOrdinary Own where
  binary h := fun hP _ => hP.role (Language.binary?_standard h)
  unary h := fun hP _ => hP.unary h
  function h := Native.ordinary_standard h

section Weaves

variable {ι : Type} {P : (α : Type) → (ι → Run α) → Prop} {run : ι → Expr → Lazy}
  {lang : Language}

namespace Weave

variable (hP : Weave P)

include hP

theorem inOrder {xs : List (ι → Lazy)} (h : ∀ x ∈ xs, Threads P x) :
    Threads P fun i => TickScript.inOrder (xs.map (· i)) := by
  induction xs with
  | nil => exact fun _ => hP.pure Value.null
  | cons x rest ih =>
    cases rest with
    | nil => exact h x (by simp)
    | cons y rest =>
      exact fun k => hP.bind (h x (by simp) .void) fun _ => ih (fun z hz => h z (by simp [hz])) k

section Applied

variable {xs : ι → Nat → Lazy} (hxs : ∀ j, Threads P fun i => xs i j)

include hxs

omit hP hxs in
theorem map_member (n : Nat) (i : ι) :
    ((List.range n).map fun j i => xs i j).map (· i) = (List.range n).map (xs i) := by
  simp

omit hP in
/-- The operands of a node that has so many of them. -/
theorem mem_operands (n : Nat) :
    ∀ x ∈ (List.range n).map fun j i => xs i j, Threads P x := by
  intro x hx
  obtain ⟨j, _, rfl⟩ := List.mem_map.mp hx
  exact hxs j

/-- A node hands on what its language does, if this is known of calls and definitions. -/
theorem apply (hbinary : ∀ {spelling op}, lang.binary? spelling = some op → op.role.Threads P)
    (hunary : ∀ {spelling op}, lang.unary? spelling = some op → op.Threads P) (e : Expr) (k : Kind)
    (hcall : ∀ name args site, e = .call name args site →
      P Value fun i => applyCall lang (run i) name k ((List.range args.length).map (xs i)))
    (hdefine : ∀ name params body site, e = .define name params body site →
      P Unit fun _ => defineProcedure { name, params, body, site }) :
    P Value fun i => e.apply lang (run i) k (xs i) := by
  cases e with
  | number x => exact hP.pure _
  | text s => exact hP.pure _
  | var name isTarget site => exact hP.plain (plain_readVariable name isTarget)
  | unary operator operand site =>
    simp only [Expr.apply, applyUnary]
    cases hop : lang.unary? operator with
    | none => exact hP.plain (.fail _)
    | some op => exact hunary hop k _ (hxs 0)
  | binary operator left right site =>
    simp only [Expr.apply, applyBinary]
    cases hop : lang.binary? operator with
    | none => exact hP.plain (.fail _)
    | some op =>
      have hrole := hbinary hop
      obtain ⟨_, _, role⟩ := op
      cases role with
      | evaluates apply | assigns apply => exact hrole k _ _ (hxs 0) (hxs 1)
      | defines | sequences => exact hP.plain (.fail _)
  | call name args site => exact hcall name args site rfl
  | define name params body site =>
    exact hP.bind (hdefine name params body site rfl) fun _ => hP.pure _
  | sequence items =>
    have hitems := hP.inOrder (mem_operands hxs items.length) k
    simp only [map_member] at hitems
    exact hitems

end Applied

end Weave

namespace CallWeave

variable (hP : CallWeave P)

include hP

/-- An ordinary language hands on from operands what holds of checks, calls and yields as well. -/
theorem threads {Own : (α : Type) → Run α → Prop} (hlang : lang.IsOrdinary Own)
    (hown : ∀ {α : Type} {x : Run α}, Own α x → P α fun _ => x)
    (hcheck : P Unit fun _ => Run.checkStop)
    (henter : ∀ procedure scope e k, P Value fun i => enter procedure scope (run i e k))
    (hyield : ∀ budget, P Unit fun i => yield (run i) budget) : lang.Threads P run where
  binary h := hlang.binary h hP.toWeave hown
  unary h := hlang.unary h hP.toWeave hown
  function h := by
    rcases hlang.function h with hf | ⟨loop, rfl⟩ | rfl | rfl
    · exact hf hP.toWeave hown run
    · exact hP.loop hcheck loop
    · exact hP.calling henter
    · exact hP.ticking hyield

variable (henter : ∀ procedure scope e k, P Value fun i => enter procedure scope (run i e k))
  (hlang : lang.Threads P run)

include henter hlang

theorem applyCall (name : String) (k : Kind) {args : List (ι → Lazy)}
    (hargs : ∀ x ∈ args, Threads P x) :
    P Value fun i => TickScript.applyCall lang (run i) name k (args.map (· i)) := by
  unfold TickScript.applyCall
  cases hf : lang.function? name with
  | none => exact hP.callNamed henter name hargs k
  | some f => exact hlang.function hf args hargs k

theorem applyNode (e : Expr) (k : Kind) {xs : ι → Nat → Lazy}
    (hxs : ∀ j, Threads P fun i => xs i j) :
    P Value fun i => e.apply lang (run i) k (xs i) := by
  refine hP.apply hxs hlang.binary hlang.unary e k (fun name args site _ => ?_)
    fun name params body site _ => hP.store _
  simpa only [Weave.map_member] using
    hP.applyCall henter hlang name k (Weave.mem_operands hxs args.length)

section Located

variable (hlocated : ∀ {x : ι → Run Value} (site : Site), P Value x →
  P Value fun i => Run.located site (x i))

include hlocated

theorem node (e : Expr) (k : Kind) {xs : ι → Nat → Lazy}
    (hxs : ∀ j, Threads P fun i => xs i j) : P Value fun i => e.node lang (run i) k (xs i) := by
  have happly := hP.applyNode henter hlang e k hxs
  unfold Expr.node
  cases e.site? with
  | none => exact happly
  | some site => exact hlocated site happly

/-- A tree hands on what its language does and what the locating of faults keeps. -/
theorem denote (e : Expr) : Threads P fun i => e.denote lang (run i) := by
  induction e using Expr.induction_on_parts with
  | node e ih =>
    intro k
    have hoperands : ∀ j, Threads P fun i => e.operands lang (run i) j := by
      intro j
      unfold Expr.operands
      cases hpart : e.parts[j]? with
      | none => exact fun _ => hP.pure Value.null
      | some part => exact ih part (List.mem_of_getElem? hpart)
    simp only [Expr.denote_eq_node]
    exact hP.node henter hlang hlocated e k hoperands

end Located

end CallWeave

end Weaves

end TickScript
