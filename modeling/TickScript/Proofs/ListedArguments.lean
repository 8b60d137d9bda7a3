-- The arguments that a call from the console lists. They are numbers, with a minus sign or without,
-- texts in quotes and bare words; a call is carried out with exactly these or refused. What is read
-- differs from what is written in two ways: a minus sign that no number follows is passed over if a
-- word, a text or nothing follows it, and a word is looked up in small letters.
import TickScript.Proofs.Conversions
import TickScript.Proofs.Invocation

namespace TickScript

open TickScript.Text

variable {word : String → Value} {x : Lexeme}

variable {y : Float} {xs : List Lexeme} {values : List Value}

/-! ## Lists of arguments -/

namespace Lexeme

/-- A minus sign, whether it is read as the sign of an operand or as an operator. -/
def IsMinus (x : Lexeme) : Prop := (x.kind = .operator ∨ x.kind = .unary) ∧ x.surface = "-"

instance (x : Lexeme) : Decidable x.IsMinus := inferInstanceAs (Decidable (_ ∧ _))

/-- A bare word or a text in quotes. -/
def IsPlain (x : Lexeme) : Prop := x.kind = .name ∨ x.kind = .text

instance (x : Lexeme) : Decidable x.IsPlain := inferInstanceAs (Decidable (_ ∨ _))

/-- The argument that a lexeme stands for on its own, if `word` says what a bare word stands for. -/
inductive Stands (word : String → Value) : Lexeme → Value → Prop
  | number {n : Lexeme} {x : Float} (h : n.Spells x) : Stands word n (.number x)
  | text (s : String) : Stands word ⟨.text, s⟩ (.text s)
  | word (s : String) : Stands word ⟨.name, s⟩ (word s)

end Lexeme

/-- A list of arguments as it is to be written: a minus sign stands before a number only. -/
inductive Lists (word : String → Value) : List Lexeme → List Value → Prop
  | none : Lists word [] []
  | argument {x : Lexeme} {v : Value} {xs : List Lexeme} {values : List Value}
      (hx : x.Stands word v) (hxs : Lists word xs values) : Lists word (x :: xs) (v :: values)
  | negative {minus n : Lexeme} {x : Float} {xs : List Lexeme} {values : List Value}
      (hminus : minus.IsMinus) (hn : n.Spells x) (hxs : Lists word xs values) :
      Lists word (minus :: n :: xs) (.number (-x) :: values)

/-- Without the minus signs that a word or a text follows or nothing at all. -/
def withoutLostSigns : List Lexeme → List Lexeme
  | [] => []
  | x :: xs =>
    if x.IsMinus ∧ ∀ y ∈ xs.head?, y.IsPlain then withoutLostSigns xs
    else x :: withoutLostSigns xs

/-! ## One lexeme -/

namespace Lexeme

variable {word : String → Value} {x minus : Lexeme} {v w : Value}

theorem Spells.kind_eq (h : x.Spells y) : x.kind = .number ∨ x.kind = .hex := by
  cases h with
  | decimal => exact .inl rfl
  | hexadecimal => exact .inr rfl

theorem Spells.unique {z : Float} (h : x.Spells y) (h' : x.Spells z) : z = y := by
  cases h with
  | decimal _ hy =>
    cases h' with
    | decimal _ hz => exact Option.some.inj (hz.symm.trans hy)
  | hexadecimal _ hy =>
    cases h' with
    | hexadecimal _ hz => exact Option.some.inj (hz.symm.trans hy)

theorem IsMinus.not_spells (h : x.IsMinus) : ¬x.Spells y := by
  intro hspells
  rcases h.1 with hkind | hkind <;> rcases hspells.kind_eq with hnumber | hnumber <;>
    cases hkind.symm.trans hnumber

theorem IsPlain.not_spells (h : x.IsPlain) : ¬x.Spells y := by
  intro hspells
  rcases h with hkind | hkind <;> rcases hspells.kind_eq with hnumber | hnumber <;>
    cases hkind.symm.trans hnumber

theorem Stands.unique (h : x.Stands word v) (h' : x.Stands word w) : w = v := by
  cases h with
  | number h =>
    cases h' with
    | number h' => rw [h.unique h']
    | text => cases h.kind_eq <;> contradiction
    | word => cases h.kind_eq <;> contradiction
  | text =>
    cases h' with
    | number h' => cases h'.kind_eq <;> contradiction
    | text => rfl
  | word =>
    cases h' with
    | number h' => cases h'.kind_eq <;> contradiction
    | word => rfl

theorem IsPlain.not_isMinus (h : x.IsPlain) : ¬x.IsMinus := by
  rintro ⟨hkind | hkind, -⟩ <;> rcases h with hplain | hplain <;> cases hkind.symm.trans hplain

theorem IsMinus.not_stands (h : x.IsMinus) : ¬x.Stands word v := by
  intro hstands
  cases hstands with
  | number hspells => exact h.not_spells hspells
  | text => rcases h.1 with hkind | hkind <;> cases hkind
  | word => rcases h.1 with hkind | hkind <;> cases hkind

end Lexeme

/-- What becomes of a lexeme in a list of arguments, with a minus sign before it or without. -/
inductive Takes (globals : Registry Value) (sign : Bool) (x : Lexeme) :
    Except InvokeFault (Option Value) → Prop
  | number {y : Float} (h : x.Spells y) :
      Takes globals sign x (.ok (some (.number (if sign then -y else y))))
  | plain {v : Value} (h : x.IsPlain) (hv : x.Stands (wordArgument globals) v) :
      Takes globals sign x (.ok (some v))
  | minus (h : x.IsMinus) (hsign : sign = false) : Takes globals sign x (.ok none)
  | refused (e : InvokeFault) (hstands : ∀ word v, ¬x.Stands word v) (hplain : ¬x.IsPlain)
      (hminus : x.IsMinus → sign = true) : Takes globals sign x (.error e)

theorem takes_takeArgument (globals : Registry Value) (sign : Bool)
    (hx : x.kind = .number ∨ x.kind = .hex → x.IsNumeral) :
    Takes globals sign x (takeArgument globals sign ⟨x.kind, x.surface, .start⟩) := by
  by_cases hnumber : x.kind = .number ∨ x.kind = .hex
  · have hspells := (hx hnumber).spells
    rw [takeArgument_numeral hspells]
    exact .number hspells
  have hstands {word : String → Value} {v : Value} (hplain : ¬x.IsPlain) : ¬x.Stands word v := by
    rintro (hspells | _ | _)
    · exact hnumber hspells.kind_eq
    · exact hplain (.inr rfl)
    · exact hplain (.inl rfl)
  obtain ⟨kind, surface⟩ := x
  have hoperator (hkind : kind = .operator ∨ kind = .unary) :
      Takes globals sign ⟨kind, surface⟩
        (if surface = "-" && !sign then .ok none else .error (.operator surface)) := by
    have hplain : ¬(Lexeme.mk kind surface).IsPlain := by
      rcases hkind with rfl | rfl <;> simp [Lexeme.IsPlain]
    split
    · rename_i hminus
      have hminus : surface = "-" ∧ sign = false := by simpa using hminus
      exact .minus ⟨hkind, hminus.1⟩ hminus.2
    · rename_i hother
      refine .refused _ (fun _ _ => hstands hplain) hplain fun hminus => ?_
      have hsurface : surface = "-" := hminus.2
      simpa [hsurface] using hother
  cases kind with
  | name => exact .plain (.inl rfl) (.word surface)
  | text => exact .plain (.inr rfl) (.text surface)
  | number => exact absurd (.inl rfl) hnumber
  | hex => exact absurd (.inr rfl) hnumber
  | operator => exact hoperator (.inl rfl)
  | unary => exact hoperator (.inr rfl)
  | call | opening | closing | comma =>
    refine .refused _ (fun _ _ => hstands ?_) ?_ ?_ <;> simp [Lexeme.IsPlain, Lexeme.IsMinus]

/-! ## The whole list -/

theorem withoutLostSigns_of_not_isMinus (h : ¬x.IsMinus) (xs : List Lexeme) :
    withoutLostSigns (x :: xs) = x :: withoutLostSigns xs :=
  if_neg fun hlost => h hlost.1

theorem lists_cons_iff (h : ¬x.IsMinus) :
    Lists word (x :: xs) values ↔
      ∃ v rest, x.Stands word v ∧ Lists word xs rest ∧ values = v :: rest := by
  constructor
  · rintro (_ | ⟨hx, hxs⟩ | ⟨hminus, -, -⟩)
    · exact ⟨_, _, hx, hxs, rfl⟩
    · exact absurd hminus h
  · rintro ⟨v, rest, hx, hxs, rfl⟩
    exact .argument hx hxs

theorem lists_minus_iff {minus : Lexeme} (h : minus.IsMinus) :
    Lists word (minus :: xs) values ↔
      ∃ n x others rest, n.Spells x ∧ Lists word others rest ∧ xs = n :: others ∧
        values = .number (-x) :: rest := by
  constructor
  · rintro (_ | ⟨hx, -⟩ | ⟨-, hn, hxs⟩)
    · exact absurd hx h.not_stands
    · exact ⟨_, _, _, _, hn, hxs, rfl, rfl⟩
  · rintro ⟨n, x, others, rest, hn, hxs, rfl, rfl⟩
    exact .negative h hn hxs

/-- A number at the head has no lost sign before it. -/
theorem eq_of_withoutLostSigns {x n : Lexeme} {others : List Lexeme} (hn : n.Spells y)
    (h : withoutLostSigns (x :: xs) = n :: others) : x = n := by
  unfold withoutLostSigns at h
  split at h
  · rename_i hlost
    cases xs with
    | nil => cases h
    | cons z zs =>
      have hplain : z.IsPlain := hlost.2 z rfl
      rw [withoutLostSigns_of_not_isMinus hplain.not_isMinus] at h
      cases h
      exact absurd hn hplain.not_spells
  · cases h
    rfl

section

variable (globals : Registry Value)

/-- The arguments `new` are listed by `xs`, behind those that are already read. -/
def Continues (args : List Value) (xs : List Lexeme) (values : List Value) : Prop :=
  ∃ new, values = args ++ new ∧ Lists (wordArgument globals) (withoutLostSigns xs) new

theorem continues_of_stands {v : Value} (hx : x.Stands (wordArgument globals) v) (xs : List Lexeme)
    (args values : List Value) :
    Continues globals args (x :: xs) values ↔ Continues globals (args ++ [v]) xs values := by
  have hminus : ¬x.IsMinus := fun h => h.not_stands hx
  unfold Continues
  rw [withoutLostSigns_of_not_isMinus hminus]
  constructor
  · rintro ⟨new, rfl, hnew⟩
    obtain ⟨w, rest, hw, hrest, rfl⟩ := (lists_cons_iff hminus).mp hnew
    rw [hx.unique hw]
    exact ⟨rest, by simp, hrest⟩
  · rintro ⟨rest, rfl, hrest⟩
    exact ⟨v :: rest, by simp, .argument hx hrest⟩

theorem continues_of_negative {minus n : Lexeme} (hminus : minus.IsMinus) (hn : n.Spells y)
    (xs : List Lexeme) (args values : List Value) :
    Continues globals args (minus :: n :: xs) values ↔
      Continues globals (args ++ [.number (-y)]) xs values := by
  have hkept : withoutLostSigns (minus :: n :: xs) = minus :: n :: withoutLostSigns xs := by
    have hnot : ¬n.IsMinus := fun h => h.not_spells hn
    rw [withoutLostSigns, if_neg fun hlost => (hlost.2 n rfl).not_spells hn,
      withoutLostSigns_of_not_isMinus hnot]
  unfold Continues
  rw [hkept]
  constructor
  · rintro ⟨new, rfl, hnew⟩
    obtain ⟨n', z, others, rest, hz, hrest, heq, rfl⟩ := (lists_minus_iff hminus).mp hnew
    cases heq
    rw [hn.unique hz]
    exact ⟨rest, by simp, hrest⟩
  · rintro ⟨rest, rfl, hrest⟩
    exact ⟨_, by simp, .negative hminus hn hrest⟩

theorem continues_of_lost {minus x : Lexeme} (hminus : minus.IsMinus) (hx : x.IsPlain)
    (xs : List Lexeme) (args values : List Value) :
    Continues globals args (minus :: x :: xs) values ↔ Continues globals args (x :: xs) values := by
  have hkept : withoutLostSigns (minus :: x :: xs) = withoutLostSigns (x :: xs) :=
    if_pos ⟨hminus, by simpa using hx⟩
  unfold Continues
  rw [hkept]

theorem continues_nil (args values : List Value) :
    Continues globals args [] values ↔ values = args := by
  constructor
  · rintro ⟨new, rfl, hnew⟩
    cases hnew
    exact List.append_nil args
  · rintro rfl
    exact ⟨[], (List.append_nil values).symm, .none⟩

section

variable {x : Lexeme} (hstands : ∀ word v, ¬x.Stands word v)

include hstands

theorem not_continues (h : ¬x.IsMinus) (xs : List Lexeme) (args values : List Value) :
    ¬Continues globals args (x :: xs) values := by
  rintro ⟨new, -, hnew⟩
  rw [withoutLostSigns_of_not_isMinus h] at hnew
  obtain ⟨v, -, hv, -⟩ := (lists_cons_iff h).mp hnew
  exact hstands _ _ hv

theorem not_continues_minus {minus : Lexeme} (hminus : minus.IsMinus) (hplain : ¬x.IsPlain)
    (xs : List Lexeme) (args values : List Value) :
    ¬Continues globals args (minus :: x :: xs) values := by
  rintro ⟨new, -, hnew⟩
  rw [withoutLostSigns, if_neg fun hlost => hplain (hlost.2 x rfl)] at hnew
  obtain ⟨n, y, others, rest, hn, -, hkept, -⟩ := (lists_minus_iff hminus).mp hnew
  obtain rfl := eq_of_withoutLostSigns hn hkept
  exact hstands (fun _ => .null) _ (.number hn)

end

/-- Reading a list of arguments is passing over the lost signs and reading what is left as it is to
be written. -/
theorem takeArguments_iff (hxs : ∀ x ∈ xs, x.kind = .number ∨ x.kind = .hex → x.IsNumeral) :
    (∀ args values, takeArguments globals false args xs = .ok values ↔
      Continues globals args xs values) ∧
    ∀ minus : Lexeme, minus.IsMinus → ∀ args values,
      takeArguments globals true args xs = .ok values ↔
        Continues globals args (minus :: xs) values := by
  -- A minus sign is pending in the second part, so it stands for the first part of a longer list.
  induction xs with
  | nil =>
    have hnil (args values : List Value) : (Except.ok args : Except InvokeFault _) = .ok values ↔
        Continues globals args [] values := by
      rw [continues_nil, Except.ok.injEq, eq_comm]
    refine ⟨hnil, fun minus hminus args values => ?_⟩
    have hkept : withoutLostSigns [minus] = withoutLostSigns [] := if_pos ⟨hminus, by simp⟩
    unfold Continues
    rw [hkept]
    exact hnil args values
  | cons x xs ih =>
    obtain ⟨hx, hrest⟩ := List.forall_mem_cons.mp hxs
    obtain ⟨ihplain, ihminus⟩ := ih hrest
    constructor
    · intro args values
      have htakes := takes_takeArgument globals false hx
      unfold takeArguments
      generalize takeArgument globals false ⟨x.kind, x.surface, .start⟩ = result at htakes ⊢
      cases htakes with
      | number h =>
        rw [continues_of_stands globals (.number h)]
        exact ihplain _ _
      | plain h hv =>
        rw [continues_of_stands globals hv]
        exact ihplain _ _
      | minus h => exact ihminus x h args values
      | refused e hstands hplain hminus =>
        refine iff_of_false (fun h => ?_)
          (not_continues globals hstands (fun h => ?_) xs args values)
        · cases h
        · cases hminus h
    · intro minus hminus args values
      have htakes := takes_takeArgument globals true hx
      unfold takeArguments
      generalize takeArgument globals true ⟨x.kind, x.surface, .start⟩ = result at htakes ⊢
      cases htakes with
      | number h =>
        rw [continues_of_negative globals hminus h]
        exact ihplain _ _
      | plain h hv =>
        rw [continues_of_lost globals hminus h, continues_of_stands globals hv]
        exact ihplain _ _
      | minus h hsign => cases hsign
      | refused e hstands hplain =>
        refine iff_of_false (fun h => ?_)
          (not_continues_minus globals hstands hminus hplain xs args values)
        cases h

end

/-! ## Texts -/

/-- A text that is misread lists no arguments. -/
theorem readArguments_of_fault {ops : OperatorTable} {source : Source} {l : Lexer}
    {tokens : List Token} {f : Fault} (h : l.Emits ops source tokens (some f))
    (hfailed : l.failed = false) {fuel : ℕ} (hfuel : l.rest.length < fuel)
    (globals : Registry Value) (sign : Bool) (args : List Value) :
    ∃ e, readArguments ops source globals fuel l sign args = .error e := by
  generalize hending : some f = ending at h
  induction h generalizing fuel sign args with
  | finished h => cases hending
  | @fault l after f h =>
    obtain ⟨fuel, rfl⟩ := Nat.exists_eq_succ_of_ne_zero (Nat.ne_zero_of_lt hfuel)
    refine ⟨.unreadable f.message, ?_⟩
    simp only [readArguments, h]
  | @token l after t tokens ending h hrest ih =>
    obtain ⟨fuel, rfl⟩ := Nat.exists_eq_succ_of_ne_zero (Nat.ne_zero_of_lt hfuel)
    obtain ⟨c, rest, p, hblanks, hpiece, rfl, rfl⟩ := Lexer.of_next_token hfailed h
    have hlt := Lexer.length_past_lt hblanks hpiece
    have hshorter : (l.past p).rest.length < fuel := by omega
    simp only [readArguments, h]
    rcases takeArgument globals sign (l.tokenOf p) with e | _ | v
    · exact ⟨e, rfl⟩
    · exact ih hfailed hshorter true args hending
    · exact ih hfailed hshorter false (args ++ [v]) hending

theorem argumentsOf_eq_ok_iff {lang : Language} {text : String} {tokens : List Token}
    {ending : Option Fault}
    (h : (Lexer.ofCode text false).Emits lang.operators ⟨text, none⟩ tokens ending)
    (globals : Registry Value) (values : List Value) :
    argumentsOf lang globals text = .ok values ↔
      ending = none ∧
        Lists (wordArgument globals) (withoutLostSigns (tokens.map Token.lexeme)) values := by
  have hfuel : (Lexer.ofCode text false).rest.length < text.length + 1 := by
    rw [← String.length_toList]
    exact Nat.lt_succ_self _
  unfold argumentsOf
  cases ending with
  | none =>
    have hconverts : ∀ x ∈ tokens.map Token.lexeme,
        x.kind = .number ∨ x.kind = .hex → x.IsNumeral := by
      intro x hx
      obtain ⟨t, ht, rfl⟩ := List.mem_map.mp hx
      exact h.converts t ht
    rw [readArguments_of_emits h rfl hfuel, (takeArguments_iff globals hconverts).1, Continues]
    simp
  | some f =>
    obtain ⟨e, he⟩ := readArguments_of_fault h rfl hfuel globals false []
    rw [he]
    exact iff_of_false nofun nofun

/-- What is written as it is to be written has no lost signs. -/
theorem Lists.withoutLostSigns_eq (h : Lists word xs values) : withoutLostSigns xs = xs := by
  induction h with
  | none => rfl
  | argument hx _ ih =>
    rw [withoutLostSigns_of_not_isMinus fun h => h.not_stands hx, ih]
  | negative _ hn _ ih =>
    rw [withoutLostSigns, if_neg fun hlost => (hlost.2 _ rfl).not_spells hn,
      withoutLostSigns_of_not_isMinus fun h => h.not_spells hn, ih]

/-! ## Replies -/

namespace InvokeFault

theorem prefix_append {a : String} (b : String) (h : "Fail: ".toList <+: a.toList) :
    "Fail: ".toList <+: (a ++ b).toList := by
  rw [String.toList_append]
  exact h.trans (List.prefix_append _ _)

theorem prefix_intercalate {a : String} (others : List String)
    (h : "Fail: ".toList <+: a.toList) :
    "Fail: ".toList <+: ("\n".intercalate (a :: others)).toList := by
  rw [String.toList_intercalate, List.map_cons]
  cases others with
  | nil => simpa using h
  | cons b others =>
    rw [List.map_cons, List.intercalate_cons_cons, List.append_assoc]
    exact h.trans (List.prefix_append _ _)

/-- Every refusal begins in the same way. -/
theorem exists_message_eq (e : InvokeFault) : ∃ rest, e.message = "Fail: " ++ rest := by
  have hprefix : "Fail: ".toList <+: e.message.toList := by
    cases e with
    | unreadable text => exact prefix_append _ (by decide)
    | notANumber text => exact prefix_append _ (prefix_append _ (prefix_append _ (by decide)))
    | operator text => exact prefix_append _ (prefix_append _ (by decide))
    | function name => exact prefix_append _ (prefix_append _ (by decide))
    | punctuation text => exact prefix_append _ (prefix_append _ (by decide))
    | wrongCount procedure params args =>
      exact prefix_intercalate _ (prefix_append _ (prefix_append _ (prefix_append _ (by decide))))
  obtain ⟨rest, hrest⟩ := hprefix
  have hback : (String.ofList rest).toList = rest := String.toList_ofList
  refine ⟨String.ofList rest, ?_⟩
  rw [← String.toList_inj, String.toList_append, hback, hrest]

end InvokeFault

namespace Console

section

variable {lang : Language} {s : State} {name : String} {p : Procedure}
  (hp : s.machine.procedures.get? name = some p) (hrunning : s.machine.cancelled = false)
  {args : String}

include hp hrunning

theorem answerCall_of_accepted (h : argumentsOf lang s.machine.globals args = .ok values)
    (hcount : values.length = p.params.length) :
    answerCall (callProcedure lang name args) s = answerCall (carryOut lang name values) s := by
  refine answerCall_congr rfl ?_
  have hnot : ¬values.length ≠ p.params.length := not_not.mpr hcount
  simp only [callProcedure, unlessPaused, State.snooping, hrunning, hp, h, if_neg hnot]
  rfl

/-- A list of arguments that is not accepted is refused, and nothing is called. -/
theorem exists_answerCall_of_refused
    (h : ∀ values, argumentsOf lang s.machine.globals args = .ok values →
      values.length ≠ p.params.length) :
    ∃ rest, answerCall (callProcedure lang name args) s =
      takeOutput (resultLines ("Fail: " ++ rest)) s := by
  have hanswer {e : InvokeFault}
      (he : callProcedure lang name args (s.snooping (some (.printer false))) =
        .ok e.message (s.snooping (some (.printer false)))) :
      answerCall (callProcedure lang name args) s = takeOutput (resultLines e.message) s := by
    unfold State.snooping at he
    simp only [answerCall, Run.snooped, he]
  cases hlist : argumentsOf lang s.machine.globals args with
  | error e =>
    obtain ⟨rest, hrest⟩ := e.exists_message_eq
    refine ⟨rest, ?_⟩
    rw [← hrest]
    refine hanswer ?_
    simp [callProcedure, unlessPaused, State.snooping, hrunning, hp, hlist]
  | ok values =>
    obtain ⟨rest, hrest⟩ := (InvokeFault.wrongCount name p.params values).exists_message_eq
    refine ⟨rest, ?_⟩
    rw [← hrest]
    refine hanswer ?_
    simp [callProcedure, unlessPaused, State.snooping, hrunning, hp, hlist, h values hlist]

end

end Console

namespace Echo

def site : Site := ⟨⟨.name, "a", .start⟩, ⟨"f(a) -> a", none⟩⟩

/-- A procedure that gives its argument back. -/
def procedure : Procedure := ⟨"f", ["a"], .var "a" false site, site⟩

/-- The procedure is stored, and there is a global with a capital letter in its name. -/
def state : State :=
  ⟨.empty, { procedures := Registry.empty.set "f" procedure,
             globals := Registry.empty.set "global_Foo" (.number 7) }⟩

/-- The lines of the answer to a call with these arguments, if it ends. -/
def answer (args : String) : Option (List ReplyLine) :=
  match Console.answerCall (Console.callProcedure .standard "f" args) state with
  | .ok lines _ => some lines
  | .error _ _ => none

theorem get?_procedure : state.machine.procedures.get? "f" = some procedure := rfl

end Echo

/-- The lexemes list these arguments once the lost signs are left out, as many as there are
parameters. -/
structure Accepts (globals : Registry Value) (p : Procedure) (xs : List Lexeme)
    (values : List Value) : Prop where
  lists : Lists (wordArgument globals) (withoutLostSigns xs) values
  count : values.length = p.params.length

/-- A stored procedure that is called from the console gets the arguments that are listed, with each
minus sign left out that a word or a text follows or nothing at all. The list is as it is to be
written exactly if there is no such sign. Everything else is refused. -/
theorem console_calls_pass_over_lost_signs {lang : Language} {s : State} {name : String}
    {p : Procedure} (hp : s.machine.procedures.get? name = some p)
    (hrunning : s.machine.cancelled = false) (args : String) :
    ∃ tokens ending,
      (Lexer.ofCode args false).Emits lang.operators ⟨args, none⟩ tokens ending ∧
      (∀ values, ending = none ∧ Accepts s.machine.globals p (tokens.map Token.lexeme) values →
        Console.answerCall (Console.callProcedure lang name args) s =
          Console.answerCall (Console.carryOut lang name values) s ∧
        (Lists (wordArgument s.machine.globals) (tokens.map Token.lexeme) values ↔
          withoutLostSigns (tokens.map Token.lexeme) = tokens.map Token.lexeme)) ∧
      ((¬∃ values, ending = none ∧
          Accepts s.machine.globals p (tokens.map Token.lexeme) values) →
        ∃ rest, Console.answerCall (Console.callProcedure lang name args) s =
          Console.takeOutput (Console.resultLines ("Fail: " ++ rest)) s) := by
  obtain ⟨tokens, ending, hemits⟩ :=
    Lexer.exists_emits lang.operators ⟨args, none⟩ (.ofCode args false) rfl
  have hlist := argumentsOf_eq_ok_iff hemits s.machine.globals
  refine ⟨tokens, ending, hemits, fun values ⟨hending, haccepts⟩ => ⟨?_, ?_, fun hkept => ?_⟩,
    fun hrefused => ?_⟩
  · exact Console.answerCall_of_accepted hp hrunning
      ((hlist values).mpr ⟨hending, haccepts.lists⟩) haccepts.count
  · exact Lists.withoutLostSigns_eq
  · rw [← hkept]
    exact haccepts.lists
  · refine Console.exists_answerCall_of_refused hp hrunning fun values haccepted hcount => ?_
    obtain ⟨hending, hlists⟩ := (hlist values).mp haccepted
    exact hrefused ⟨values, hending, hlists, hcount⟩

/-- A minus sign before a word, one before a text and one at the end are not refused. -/
theorem lost_signs_are_not_refused :
    Echo.answer "-x" = some [.result "x"] ∧ Echo.answer "- 'x'" = some [.result "x"] ∧
      Echo.answer "5 -" = some [.result "5"] := by
  decide +kernel

open Echo in
/-- A word is passed on without the sign before it. -/
theorem a_word_is_passed_without_its_sign :
    state.machine.procedures.get? "f" = some procedure ∧ state.machine.cancelled = false ∧
      Console.answerCall (Console.callProcedure .standard "f" "-x") state =
        Console.answerCall (Console.carryOut .standard "f" [.text "x"]) state := by
  refine ⟨get?_procedure, rfl, ?_⟩
  obtain ⟨tokens, ending, hemits, haccepted, -⟩ :=
    @console_calls_pass_over_lost_signs .standard state "f" procedure get?_procedure rfl "-x"
  have hread : (Lexer.ofCode "-x" false).Emits Language.standard.operators ⟨"-x", none⟩
      [⟨.unary, "-", .start⟩, ⟨.name, "x", ⟨1, 0, 1⟩⟩] none :=
    .token rfl (.token rfl (.finished rfl))
  obtain ⟨rfl, rfl⟩ := hread.unique hemits
  exact (haccepted [.text "x"] ⟨rfl, .argument (.word "x") .none, rfl⟩).1

/-! ## Words -/

/-- The lexemes that stand for arguments. -/
def operands (xs : List Lexeme) : List Lexeme := xs.filter fun x => ¬x.IsMinus

/-- Each bare word has been taken as `word` says. -/
def TakesWords (word : String → Value) (xs : List Lexeme) (values : List Value) : Prop :=
  List.Forall₂ (fun x v => x.kind = .name → v = word x.surface) (operands xs) values

theorem operands_withoutLostSigns (xs : List Lexeme) :
    operands (withoutLostSigns xs) = operands xs := by
  unfold operands
  induction xs with
  | nil => rfl
  | cons x xs ih =>
    unfold withoutLostSigns
    split
    · rename_i hlost
      rw [ih, List.filter_cons_of_neg (by simpa using hlost.1)]
    · rw [List.filter_cons, List.filter_cons, ih]

theorem Lists.takesWords (h : Lists word xs values) : TakesWords word xs values := by
  unfold TakesWords operands
  induction h with
  | none => exact .nil
  | argument hx _ ih =>
    rw [List.filter_cons_of_pos (by simpa using fun h => h.not_stands hx)]
    refine .cons (fun hname => ?_) ih
    cases hx with
    | number hn => rcases hn.kind_eq with hkind | hkind <;> cases hkind.symm.trans hname
    | text => cases hname
    | word => rfl
  | negative hminus hn _ ih =>
    rw [List.filter_cons_of_neg (by simpa using hminus),
      List.filter_cons_of_pos (by simpa using fun h => h.not_spells hn)]
    refine .cons (fun hname => ?_) ih
    rcases hn.kind_eq with hkind | hkind <;> cases hkind.symm.trans hname

theorem mem_operands (hname : x.kind = .name) : x ∈ operands xs ↔ x ∈ xs := by
  have hplain : x.IsPlain := .inl hname
  simp [operands, hplain.not_isMinus]

/-- Two ways to take words give the same arguments exactly if they take each word alike. -/
theorem TakesWords.iff {word other : String → Value} (h : TakesWords word xs values) :
    TakesWords other xs values ↔ ∀ x ∈ xs, x.kind = .name → word x.surface = other x.surface := by
  have hwords : (∀ x ∈ xs, x.kind = .name → word x.surface = other x.surface) ↔
      ∀ x ∈ operands xs, x.kind = .name → word x.surface = other x.surface := by
    constructor
    · exact fun h x hx hname => h x ((mem_operands hname).mp hx) hname
    · exact fun h x hx hname => h x ((mem_operands hname).mpr hx) hname
  rw [hwords]
  unfold TakesWords at h ⊢
  generalize operands xs = ys at h ⊢
  induction h with
  | nil => simp
  | @cons x v xs values hx _ ih =>
    rw [List.forall₂_cons, List.forall_mem_cons]
    refine and_congr ?_ ih
    constructor
    · exact fun hv hname => (hx hname).symm.trans (hv hname)
    · exact fun heq hname => (hx hname).trans (heq hname)

/-- The argument that a bare word stands for if globals go by their exact names. -/
def namedArgument (globals : Registry Value) (word : String) : Value :=
  (globals.get? word).getD (.text word)

/-- A bare word among the arguments that a stored procedure is called with from the console is the
value of the global that has the name of the word in small letters, or the word itself. That is the
global of just this name, or the word, exactly if the two names come to the same for every word. -/
theorem words_are_looked_up_in_small_letters {lang : Language} {s : State} {name : String}
    {p : Procedure} (hp : s.machine.procedures.get? name = some p)
    (hrunning : s.machine.cancelled = false) {args : String} {values : List Value}
    (haccepted : argumentsOf lang s.machine.globals args = .ok values)
    (hcount : values.length = p.params.length) :
    Console.answerCall (Console.callProcedure lang name args) s =
      Console.answerCall (Console.carryOut lang name values) s ∧
    ∃ tokens, (Lexer.ofCode args false).Emits lang.operators ⟨args, none⟩ tokens none ∧
      TakesWords (fun word => (s.machine.globals.get? (toLower word)).getD (.text word))
        (tokens.map Token.lexeme) values ∧
      (TakesWords (namedArgument s.machine.globals) (tokens.map Token.lexeme) values ↔
        ∀ t ∈ tokens, t.kind = .name →
          (s.machine.globals.get? (toLower t.surface)).getD (.text t.surface) =
            namedArgument s.machine.globals t.surface) := by
  refine ⟨Console.answerCall_of_accepted hp hrunning haccepted hcount, ?_⟩
  obtain ⟨tokens, ending, hemits⟩ :=
    Lexer.exists_emits lang.operators ⟨args, none⟩ (.ofCode args false) rfl
  obtain ⟨rfl, hlists⟩ := (argumentsOf_eq_ok_iff hemits _ _).mp haccepted
  have hwords : TakesWords (wordArgument s.machine.globals) (tokens.map Token.lexeme) values := by
    have hkept := hlists.takesWords
    unfold TakesWords at hkept ⊢
    rwa [operands_withoutLostSigns] at hkept
  refine ⟨tokens, hemits, hwords, ?_⟩
  rw [hwords.iff, List.forall_mem_map]
  rfl

/-- A word is passed as it is although there is a global of just this name. -/
theorem a_global_with_a_capital_letter_is_not_found :
    (Echo.state.machine.globals.get? "global_Foo").map Value.display = some "7" ∧
      Echo.answer "global_Foo" = some [.result "global_Foo"] := by
  decide +kernel

open Echo in
/-- The word is passed on, which is not the value of the global of its name. -/
theorem a_word_with_a_capital_letter_is_passed_on :
    state.machine.procedures.get? "f" = some procedure ∧ state.machine.cancelled = false ∧
      argumentsOf .standard state.machine.globals "global_Foo" = .ok [.text "global_Foo"] ∧
      Console.answerCall (Console.callProcedure .standard "f" "global_Foo") state =
        Console.answerCall (Console.carryOut .standard "f" [.text "global_Foo"]) state ∧
      ¬TakesWords (namedArgument state.machine.globals) [⟨.name, "global_Foo"⟩]
        [.text "global_Foo"] := by
  have haccepted : argumentsOf .standard state.machine.globals "global_Foo" =
      .ok [.text "global_Foo"] := by
    cbv
  obtain ⟨hanswer, tokens, hemits, -, hexact⟩ :=
    words_are_looked_up_in_small_letters get?_procedure rfl haccepted rfl
  have hread : (Lexer.ofCode "global_Foo" false).Emits Language.standard.operators
      ⟨"global_Foo", none⟩ [⟨.name, "global_Foo", .start⟩] none :=
    .token rfl (.finished rfl)
  obtain ⟨rfl, -⟩ := hread.unique hemits
  refine ⟨get?_procedure, rfl, haccepted, hanswer, fun hwords => ?_⟩
  have hsame : Value.text "global_Foo" = .number 7 := hexact.mp hwords _ List.mem_cons_self rfl
  cases hsame

end TickScript
