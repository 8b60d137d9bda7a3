-- The spellings of options. The arguments are read as items that are followed one after the other,
-- and each of them is used once: as option letters, as the operand of the option before it or as a
-- script. Writing the letters of an argument apart changes nothing about the items.
import Mathlib.Data.List.Basic
import Mathlib.Logic.Relation
import TickScript.CommandLine

namespace TickScript

/-- The letter of an option with an operand. -/
def Valued.letter : Valued → Char
  | .startup => 'f'
  | .command => 'c'
  | .tickLength => 't'

theorem Valued.ofLetter?_letter (o : Valued) : ofLetter? o.letter = some o := by
  cases o <;> rfl

theorem Valued.eq_letter {c : Char} {o : Valued} (h : ofLetter? c = some o) : c = o.letter := by
  unfold ofLetter? at h
  split at h <;> cases h <;> rfl

namespace CommandLine

/-! ## Items -/

/-- What a part of the arguments asks for. -/
inductive Item where
  | switch (c : Char)
  | taken (option : Valued) (operand : String)
  | lacking (option : Valued)
  | unknown (c : Char)
  | script (path : String)
  /-- Only scripts come after it. -/
  | marker

/-- The letter of an option without an operand. -/
def isSwitch (c : Char) : Bool := c = 'd' || c = 'q' || c = 'n'

def turnOn (line : CommandLine) (c : Char) : CommandLine :=
  if c = 'd' then { line with debug := true }
  else if c = 'q' then { line with quiet := true }
  else { line with noConsole := true }

def follow (line : CommandLine) : Item → Except UsageFault CommandLine
  | .switch c => .ok (line.turnOn c)
  | .taken option operand => line.take option operand
  | .lacking option => line.lacking option
  | .unknown c => .error (.unknownOption c)
  | .script path => .ok { line with scripts := line.scripts ++ [path] }
  | .marker => .ok line

/-- The items of some letters, and the option that they leave open. -/
def letters : List Char → List Item × Option Valued
  | [] => ([], none)
  | c :: rest =>
    match Valued.ofLetter? c with
    | some option =>
      if rest.isEmpty then ([], some option) else ([.taken option (String.ofList rest)], none)
    | none => if isSwitch c then (.switch c :: (letters rest).1, (letters rest).2)
      else ([.unknown c], none)

theorem readLetters_eq (line : CommandLine) (cs : List Char) :
    line.readLetters cs =
      ((letters cs).1.foldlM follow line).map fun line => (line, (letters cs).2) := by
  induction cs generalizing line with
  | nil => rfl
  | cons c rest ih =>
    unfold readLetters letters
    cases Valued.ofLetter? c with
    | some option =>
      cases rest with
      | nil => rfl
      | cons d rest => simp [follow, Except.map]
    | none =>
      by_cases hd : c = 'd'
      · simp only [hd, isSwitch, ih, reduceIte, Bool.true_or, decide_true]
        rfl
      by_cases hq : c = 'q'
      · simp only [hq, isSwitch, ih, reduceIte, Bool.true_or, Bool.or_true, decide_true]
        rfl
      by_cases hn : c = 'n'
      · simp only [hn, isSwitch, ih, reduceIte, Bool.or_true, decide_true]
        rfl
      · simp [hd, hq, hn, isSwitch, follow, Except.map]

/-! ## Uses -/

/-- What an argument is used as. -/
inductive Use where
  | flags (items : List Item)
  /-- The operand of the option that the argument before it leaves open. -/
  | operand (option : Valued)
  | script
  | marker

/-- The items of an argument with this use. -/
def Use.items : Use → String → List Item
  | .flags items, _ => items
  | .operand option, argument => [.taken option argument]
  | .script, argument => [.script argument]
  | .marker, _ => [.marker]

/-- What each of the arguments is used as. -/
def uses : List String → List Use
  | [] => []
  | argument :: rest =>
    if argument = "--" then .marker :: List.replicate rest.length .script
    else if !isFlags argument then .script :: uses rest
    else
      match letters argument.toList.tail with
      | (is, none) => .flags is :: uses rest
      | (is, some option) =>
        match rest with
        | [] => [.flags (is ++ [.lacking option])]
        | operand :: others =>
          if option = .startup ∧ isDashed operand = true then
            .flags (is ++ [.lacking option]) :: uses (operand :: others)
          else .flags is :: .operand option :: uses others

/-- The items of the arguments, each argument giving its own. -/
def items (arguments : List String) : List Item :=
  (List.zipWith Use.items (uses arguments) arguments).flatten

variable {a b c : String} {arguments split rest rest' after : List String} {us : List Use}
  {is : List Item} {o : Valued} {cs : List Char}

/-- No operand is left for the option. -/
def Lacks (option : Valued) (rest : List String) : Prop :=
  ∀ x ∈ rest.head?, option = .startup ∧ isDashed x = true

/-- One argument is read, with the operand after it if it takes one: what these are used as, and
what is left to read. -/
inductive Turn (a : String) : List String → List Use → List String → Prop
  | script {rest : List String} (ha : isFlags a = false) : Turn a rest [.script] rest
  | closed {rest : List String} {is : List Item} (ha : isFlags a = true)
      (his : letters a.toList.tail = (is, none)) : Turn a rest [.flags is] rest
  | lacking {rest : List String} {is : List Item} {o : Valued} (ha : isFlags a = true)
      (his : letters a.toList.tail = (is, some o)) (hrest : Lacks o rest) :
      Turn a rest [.flags (is ++ [.lacking o])] rest
  | operand {x : String} {rest : List String} {is : List Item} {o : Valued}
      (ha : isFlags a = true) (his : letters a.toList.tail = (is, some o))
      (hx : ¬ (o = .startup ∧ isDashed x = true)) :
      Turn a (x :: rest) [.flags is, .operand o] rest

theorem uses_of_turn (ha : a ≠ "--") (h : Turn a rest us rest') :
    uses (a :: rest) = us ++ uses rest' := by
  rw [uses.eq_2, if_neg ha]
  cases h with
  | script hflags => simp [hflags]
  | closed hflags his => simp [hflags, his]
  | lacking hflags his hrest =>
    cases rest with
    | nil => simp [hflags, his, uses]
    | cons x rest => simp [hflags, his, hrest x rfl]
  | operand hflags his hx => simp [hflags, his, hx]

theorem exists_turn (a : String) (rest : List String) : ∃ us rest', Turn a rest us rest' := by
  cases hflags : isFlags a with
  | false => exact ⟨_, _, .script hflags⟩
  | true =>
    rcases his : letters a.toList.tail with ⟨is, _ | o⟩
    · exact ⟨_, _, .closed hflags his⟩
    · cases rest with
      | nil => exact ⟨_, _, .lacking hflags his (by simp [Lacks])⟩
      | cons x rest =>
        by_cases hx : o = .startup ∧ isDashed x = true
        · exact ⟨_, _, .lacking hflags his (by simpa [Lacks] using hx)⟩
        · exact ⟨_, _, .operand hflags his hx⟩

/-- A turn takes one argument or two, and each of these has its use. -/
theorem Turn.exists_taken (h : Turn a rest us rest') :
    ∃ taken, a :: rest = taken ++ rest' ∧ us.length = taken.length ∧ taken ≠ [] := by
  cases h with
  | operand => exact ⟨[a, _], rfl, rfl, by simp⟩
  | _ => exact ⟨[a], rfl, rfl, by simp⟩

/-- What holds of arguments that are read turn by turn. -/
theorem turns_induct {motive : List String → Prop} (nil : motive [])
    (marker : ∀ rest, motive ("--" :: rest))
    (turn : ∀ a rest us rest', a ≠ "--" → Turn a rest us rest' → motive rest' →
      motive (a :: rest)) (arguments : List String) : motive arguments := by
  induction hn : arguments.length using Nat.strongRecOn generalizing arguments with
  | ind n ih =>
    cases arguments with
    | nil => exact nil
    | cons a rest =>
      by_cases ha : a = "--"
      · exact ha ▸ marker rest
      · obtain ⟨us, rest', hturn⟩ := exists_turn a rest
        obtain ⟨taken, hsplit, -, hne⟩ := hturn.exists_taken
        have hlength := congrArg List.length hsplit
        have hpos := List.length_pos_iff.mpr hne
        rw [List.length_append, hn] at hlength
        exact turn a rest us rest' ha hturn (ih _ (by omega) rest' rfl)

theorem length_uses (arguments : List String) : (uses arguments).length = arguments.length := by
  induction arguments using turns_induct with
  | nil => rfl
  | marker rest => simp [uses]
  | turn a rest us rest' ha hturn ih =>
    obtain ⟨taken, hsplit, hlength, -⟩ := hturn.exists_taken
    rw [uses_of_turn ha hturn, hsplit, List.length_append, List.length_append, ih, hlength]

/-- An operand comes right after letters that leave its option open. -/
theorem exists_open_before {i : Nat} (h : (uses arguments)[i]? = some (.operand o)) :
    ∃ j a is, i = j + 1 ∧ arguments[j]? = some a ∧ (uses arguments)[j]? = some (.flags is) ∧
      letters a.toList.tail = (is, some o) := by
  induction arguments using turns_induct generalizing i with
  | nil => simp [uses] at h
  | marker rest => cases i <;> simp [uses, List.getElem?_replicate] at h
  | turn a rest us rest' ha hturn ih =>
    rw [uses_of_turn ha hturn] at h ⊢
    by_cases hi : i < us.length
    · rw [List.getElem?_append_left hi] at h
      cases hturn with
      | operand hflags his hx =>
        rcases i with _ | _ | i
        · simp at h
        · simp_all
        · exact absurd hi (by simp)
      | _ => simp_all
    · obtain ⟨taken, hsplit, hlength, -⟩ := hturn.exists_taken
      rw [List.getElem?_append_right (by omega)] at h
      obtain ⟨j, x, is, hj, hx, huse, his⟩ := ih h
      refine ⟨us.length + j, x, is, by omega, ?_, ?_, his⟩
      · rw [hsplit, hlength, List.getElem?_append_right (by omega), Nat.add_sub_cancel_left, hx]
      · rw [List.getElem?_append_right (by omega), Nat.add_sub_cancel_left, huse]

theorem eq_of_marker (h : (Use.marker, a) ∈ (uses arguments).zip arguments) : a = "--" := by
  induction arguments using turns_induct with
  | nil => simp at h
  | marker rest =>
    rcases List.mem_cons.mp h with h | h
    · exact (Prod.mk.inj h).2
    · cases List.eq_of_mem_replicate (List.of_mem_zip h).1
  | turn b rest us rest' hb hturn ih =>
    rw [uses_of_turn hb hturn] at h
    cases hturn <;> exact ih (by simpa using h)

theorem items_append {taken : List String} (hlength : us.length = taken.length)
    (h : uses (taken ++ rest) = us ++ uses rest) :
    items (taken ++ rest) = (List.zipWith Use.items us taken).flatten ++ items rest := by
  rw [items, h, List.zipWith_append hlength, List.flatten_append, items]

theorem items_of_turn (ha : a ≠ "--") (h : Turn a rest us rest') :
    ∃ is, items (a :: rest) = is ++ items rest' := by
  obtain ⟨taken, hsplit, hlength, -⟩ := h.exists_taken
  have huses := uses_of_turn ha h
  rw [hsplit] at huses ⊢
  exact ⟨_, items_append hlength huses⟩

theorem items_marker (rest : List String) :
    items ("--" :: rest) = .marker :: rest.map .script := by
  have hscripts : (List.zipWith Use.items (List.replicate rest.length .script) rest).flatten =
      rest.map .script := by
    induction rest with
    | nil => rfl
    | cons path rest ih => simp [Use.items, List.replicate_succ, ih]
  simp [items, uses, hscripts, Use.items]

/-- What comes after letters that leave an option open. -/
def opened : Option Valued → List String → List Item
  | none, rest => items rest
  | some o, [] => [.lacking o]
  | some o, x :: rest =>
    if o = .startup ∧ isDashed x = true then .lacking o :: items (x :: rest)
    else .taken o x :: items rest

theorem items_script (ha : isFlags a = false) (rest : List String) :
    items (a :: rest) = .script a :: items rest := by
  have hne : a ≠ "--" := by rintro rfl; revert ha; decide
  simp [items, uses_of_turn hne (.script ha), Use.items]

theorem items_flags (hne : a ≠ "--") (ha : isFlags a = true) (rest : List String) :
    items (a :: rest) = (letters a.toList.tail).1 ++ opened (letters a.toList.tail).2 rest := by
  obtain ⟨us, rest', hturn⟩ := exists_turn a rest
  have huses := uses_of_turn hne hturn
  cases hturn with
  | script hscript => simp [ha] at hscript
  | closed _ his => simp [items, huses, his, opened, Use.items]
  | lacking _ his hrest =>
    cases rest with
    | nil => simp [items, huses, his, opened, Use.items, uses]
    | cons x rest => simp [items, huses, his, opened, Use.items, hrest x rfl]
  | operand _ his hx => simp [items, huses, his, opened, Use.items, hx]

theorem foldlM_scripts (line : CommandLine) (paths : List String) :
    (paths.map Item.script).foldlM follow line =
      .ok { line with scripts := line.scripts ++ paths } := by
  induction paths generalizing line with
  | nil => simp [pure, Except.pure]
  | cons path paths ih => simp [follow, ih, bind, Except.bind]

/-- The arguments are read as their items are followed. -/
theorem readFrom_eq (line : CommandLine) (arguments : List String) :
    line.readFrom arguments = (items arguments).foldlM follow line := by
  induction arguments using turns_induct generalizing line with
  | nil => rfl
  | marker rest => exact (foldlM_scripts line rest).symm.trans (by rw [items_marker]; rfl)
  | turn a rest us rest' ha hturn ih =>
    rw [readFrom.eq_2, if_neg ha, List.drop_one, readLetters_eq]
    cases hflags : isFlags a with
    | false =>
      rw [items_script hflags, List.foldlM_cons]
      cases hturn with
      | script => exact ih _
      | _ => simp_all
    | true =>
      -- The letters are followed before it matters what the turn takes after them.
      rw [items_flags ha hflags, List.foldlM_append]
      cases (letters a.toList.tail).1.foldlM follow line with
      | error e => rfl
      | ok line =>
        cases hturn with
        | script hscript => simp [hflags] at hscript
        | closed _ his =>
          rw [his]
          exact ih line
        | lacking _ his hrest =>
          rw [his]
          cases rest with
          | nil => exact (bind_pure (line.lacking _)).symm
          | cons x rest =>
            obtain ⟨rfl, hx⟩ := hrest x rfl
            simp [opened, hx, Except.map, bind, Except.bind, ih, follow, lacking]
        | @operand x _ _ o _ his hx =>
          rw [his]
          cases htake : line.take o x <;>
            simp [opened, hx, Except.map, bind, Except.bind, ih, follow, htake]

theorem read_eq (arguments : List String) : read arguments = (items arguments).foldlM follow {} :=
  readFrom_eq {} arguments

/-! ## Splitting -/

/-- The argument of a dash and some letters. -/
def dashed (cs : List Char) : String := String.ofList ('-' :: cs)

@[simp] theorem tail_dashed (cs : List Char) : (dashed cs).toList.tail = cs := by
  simp [dashed]

@[simp] theorem isDashed_dashed (cs : List Char) : isDashed (dashed cs) = true := by
  simp [isDashed, dashed]

@[simp] theorem isFlags_dashed (c : Char) (cs : List Char) : isFlags (dashed (c :: cs)) = true := by
  simp [isFlags, dashed]

theorem items_dashed {c : Char} (h : c :: cs ≠ ['-']) (rest : List String) :
    items (dashed (c :: cs) :: rest) =
      (letters (c :: cs)).1 ++ opened (letters (c :: cs)).2 rest := by
  have hne : dashed (c :: cs) ≠ "--" := fun heq =>
    h (by simpa using congrArg (fun a => a.toList.tail) heq)
  rw [items_flags hne (isFlags_dashed c cs), tail_dashed]

theorem exists_eq_dashed (ha : isFlags a = true) : ∃ c cs, a = dashed (c :: cs) := by
  unfold isFlags at ha
  split at ha
  · rename_i c cs hchars
    exact ⟨c, cs, by rw [dashed, ← hchars, String.ofList_toList]⟩
  · cases ha

/-- An argument and the two that it can be written as. -/
inductive Splits : String → String → String → Prop
  | letters {s : Char} {cs : List Char} (hs : isSwitch s = true) (hcs : cs ≠ [])
      (hdash : cs ≠ ['-']) : Splits (dashed (s :: cs)) (dashed [s]) (dashed cs)
  | operand (o : Valued) {x : String} (hx : x ≠ "")
      (hdash : ¬ (o = .startup ∧ isDashed x = true)) :
      Splits (dashed (o.letter :: x.toList)) (dashed [o.letter]) x

/-- One argument that is used as flags is written as two. -/
inductive SplitStep : List String → List String → Prop
  | mk {before after : List String} {a b c : String} {is : List Item}
      (hflags : (uses (before ++ a :: after))[before.length]? = some (.flags is))
      (h : Splits a b c) : SplitStep (before ++ a :: after) (before ++ b :: c :: after)

theorem letters_switch {s : Char} (hs : isSwitch s = true) (cs : List Char) :
    letters (s :: cs) = (.switch s :: (letters cs).1, (letters cs).2) := by
  have hnone : Valued.ofLetter? s = none := by
    simp only [isSwitch, Bool.or_eq_true, decide_eq_true_eq] at hs
    rcases hs with (rfl | rfl) | rfl <;> rfl
  simp [letters, hnone, hs]

theorem letters_letter (o : Valued) (cs : List Char) :
    letters (o.letter :: cs) =
      if cs.isEmpty then ([], some o) else ([.taken o (String.ofList cs)], none) := by
  rw [letters, o.ofLetter?_letter]

theorem switch_ne_dash {s : Char} (hs : isSwitch s = true) : s ≠ '-' := by
  rintro rfl
  exact absurd hs (by decide)

theorem letter_ne_dash (o : Valued) : o.letter ≠ '-' := by
  cases o <;> decide

theorem items_of_splits (h : Splits a b c) (after : List String) :
    items (b :: c :: after) = items (a :: after) := by
  cases h with
  | @letters s cs hs hcs hdash =>
    obtain ⟨d, cs, rfl⟩ := List.exists_cons_of_ne_nil hcs
    rw [items_dashed (by simp [switch_ne_dash hs]), items_dashed (by simp), letters_switch hs,
      letters_switch hs]
    exact congrArg _ (items_dashed hdash after)
  | operand o hx hdash =>
    rw [items_dashed (by simp [letter_ne_dash]), items_dashed (by simp [hx]), letters_letter,
      letters_letter]
    simp [opened, hx, hdash]

/-- A turn that does not take `a` is the same turn before anything that starts with a dash. -/
theorem Turn.append_cases {x : String} (h : Turn x (rest ++ a :: after) us rest') :
    (∃ is o, rest = [] ∧ us = [.flags is, .operand o]) ∨
      ∃ taken left, x :: rest = taken ++ left ∧ taken ≠ [] ∧ us.length = taken.length ∧
        rest' = left ++ a :: after ∧
        ∀ b after', isDashed b = true → Turn x (rest ++ b :: after') us (left ++ b :: after') := by
  generalize hrest : rest ++ a :: after = all at h
  cases h with
  | script ha => exact .inr ⟨[x], rest, rfl, by simp, rfl, hrest.symm, fun _ _ _ => .script ha⟩
  | closed ha his =>
    exact .inr ⟨[x], rest, rfl, by simp, rfl, hrest.symm, fun _ _ _ => .closed ha his⟩
  | lacking ha his hlacks =>
    refine .inr ⟨[x], rest, rfl, by simp, rfl, hrest.symm, fun b after' hb => .lacking ha his ?_⟩
    subst hrest
    cases rest <;> simp_all [Lacks]
  | operand ha his hx =>
    cases rest with
    | nil => exact .inl ⟨_, _, rfl, rfl⟩
    | cons y rest =>
      obtain ⟨rfl, rfl⟩ := List.cons.inj hrest
      exact .inr ⟨[x, y], rest, rfl, by simp, rfl, rfl, fun _ _ _ => .operand ha his hx⟩

/-- Arguments before one that is used as flags are used alike before anything that starts with a
dash. -/
theorem exists_uses_append (before : List String)
    (h : (uses (before ++ a :: after))[before.length]? = some (.flags is)) :
    ∃ us, us.length = before.length ∧
      ∀ b after', isDashed b = true → uses (before ++ b :: after') = us ++ uses (b :: after') := by
  -- On the number of arguments before it, since a turn may take two of them.
  induction hn : before.length using Nat.strongRecOn generalizing before with
  | ind n ih =>
    cases before with
    | nil => exact ⟨[], hn, fun _ _ _ => rfl⟩
    | cons x rest =>
      by_cases hx : x = "--"
      · simp [hx, uses] at h
      obtain ⟨us, rest', hturn⟩ := exists_turn x (rest ++ a :: after)
      rw [List.cons_append, uses_of_turn hx hturn] at h
      rcases hturn.append_cases with
        ⟨is', o, rfl, rfl⟩ | ⟨taken, left, hsplit, hne, hlength, rfl, halike⟩
      · simp at h
      · have hcount := congrArg List.length hsplit
        have hpos := List.length_pos_iff.mpr hne
        rw [List.length_append] at hcount
        rw [List.getElem?_append_right (by omega), hcount, hlength, Nat.add_sub_cancel_left] at h
        obtain ⟨us', hlength', hus⟩ := ih _ (by omega) left h rfl
        refine ⟨us ++ us', by rw [List.length_append]; omega, fun b after' hb => ?_⟩
        rw [List.cons_append, uses_of_turn hx (halike b after' hb), hus b after' hb,
          List.append_assoc]

theorem Splits.isDashed_both (h : Splits a b c) : isDashed a = true ∧ isDashed b = true := by
  cases h <;> simp

/-- Writing an argument as two gives the same items. -/
theorem SplitStep.items_eq (h : SplitStep arguments split) : items split = items arguments := by
  obtain ⟨hflags, hsplits⟩ := h
  obtain ⟨us, hlength, hus⟩ := exists_uses_append _ hflags
  obtain ⟨ha, hb⟩ := hsplits.isDashed_both
  rw [items_append hlength (hus _ _ ha), items_append hlength (hus _ _ hb),
    items_of_splits hsplits]

/-! ## The form that is split fully -/

/-- No argument can be written as two any more. -/
def IsApart (arguments : List String) : Prop := ∀ split, ¬ SplitStep arguments split

/-- The characters beyond a dash and a letter. -/
def excess : List String → Nat
  | [] => 0
  | a :: rest => a.toList.length - 2 + excess rest

theorem excess_append (rest after : List String) :
    excess (rest ++ after) = excess rest + excess after := by
  induction rest with
  | nil => simp [excess]
  | cons a rest ih => simp [excess, ih, Nat.add_assoc]

theorem Splits.excess_lt (h : Splits a b c) : excess [b, c] < excess [a] := by
  cases h with
  | letters hs hcs hdash =>
    have := List.length_pos_iff.mpr hcs
    simp [excess, dashed, -String.ofList_cons]
    omega
  | operand o hx hdash =>
    have := List.length_pos_iff.mpr (String.toList_eq_nil_iff.not.mpr hx)
    simp [excess, dashed, -String.ofList_cons]
    omega

theorem SplitStep.excess_lt (h : SplitStep arguments split) : excess split < excess arguments := by
  obtain ⟨-, hsplits⟩ := h
  have := hsplits.excess_lt
  simp only [excess_append, excess] at this ⊢
  omega

theorem exists_isApart (arguments : List String) :
    ∃ apart, Relation.ReflTransGen SplitStep arguments apart ∧ IsApart apart := by
  induction hn : excess arguments using Nat.strongRecOn generalizing arguments with
  | ind n ih =>
    by_cases h : IsApart arguments
    · exact ⟨arguments, .refl, h⟩
    · obtain ⟨split, hstep⟩ := not_forall_not.mp h
      obtain ⟨apart, hreach, hapart⟩ := ih _ (hn ▸ hstep.excess_lt) split rfl
      exact ⟨apart, .head hstep hreach, hapart⟩

/-- The arguments that an item is written as. -/
def Item.spelling : Item → List String
  | .switch c => [dashed [c]]
  | .taken o x =>
    if o = .startup ∧ isDashed x = true then [dashed (o.letter :: x.toList)]
    else [dashed [o.letter], x]
  | .lacking o => [dashed [o.letter]]
  | .unknown c => [dashed [c]]
  | .script path => [path]
  | .marker => ["--"]

theorem spelling_letters {c : Char} (h : ∀ b d, ¬ Splits (dashed (c :: cs)) b d)
    (hknown : ∀ e, .unknown e ∉ (letters (c :: cs)).1) :
    (letters (c :: cs)).1.flatMap Item.spelling ++
      (letters (c :: cs)).2.toList.map (fun o => dashed [o.letter]) = [dashed (c :: cs)] := by
  cases ho : Valued.ofLetter? c with
  | some o =>
    obtain rfl := Valued.eq_letter ho
    by_cases hcs : cs = []
    · simp [hcs, letters_letter]
    by_cases hdash : o = .startup ∧ isDashed (String.ofList cs) = true
    · simp [letters_letter, hcs, Item.spelling, hdash]
    · have hsplits := Splits.operand o (by simpa using hcs) hdash
      rw [String.toList_ofList] at hsplits
      exact absurd hsplits (h _ _)
  | none =>
    by_cases hs : isSwitch c = true
    · rw [letters_switch hs] at hknown ⊢
      by_cases hcs : cs = []
      · simp [hcs, letters, Item.spelling]
      by_cases hdash : cs = ['-']
      · exact absurd (by simp [hdash, letters, isSwitch, Valued.ofLetter?]) (hknown '-')
      · exact absurd (.letters hs hcs hdash) (h _ _)
    · exact absurd (by simp [letters, ho, hs]) (hknown c)

/-- What can be split after a turn can be split. -/
theorem SplitStep.after_turn (ha : a ≠ "--") (hturn : Turn a rest us rest')
    (h : SplitStep rest' split) :
    ∃ split, SplitStep (a :: rest) split := by
  obtain ⟨taken, hsplit, hlength, -⟩ := hturn.exists_taken
  cases h with
  | @mk before after x b c is hflags hsplits =>
    have hflags' : (uses (taken ++ before ++ x :: after))[(taken ++ before).length]? =
        some (.flags is) := by
      rw [List.append_assoc, ← hsplit, uses_of_turn ha hturn, List.length_append, ← hlength,
        List.getElem?_append_right (by omega), Nat.add_sub_cancel_left, hflags]
    have hstep := SplitStep.mk hflags' hsplits
    rw [List.append_assoc, ← hsplit] at hstep
    exact ⟨_, hstep⟩

theorem SplitStep.here (ha : a ≠ "--") (hflags : isFlags a = true)
    (h : Splits a b c) (rest : List String) : SplitStep (a :: rest) (b :: c :: rest) := by
  obtain ⟨us, rest', hturn⟩ := exists_turn a rest
  have hfirst : ∃ is, (uses ([] ++ a :: rest))[([] : List String).length]? = some (.flags is) := by
    rw [List.nil_append, uses_of_turn ha hturn]
    cases hturn with
    | script hscript => simp [hflags] at hscript
    | _ => exact ⟨_, rfl⟩
  exact .mk hfirst.choose_spec h

/-- Arguments that are apart are the spelling of what they ask for. -/
theorem IsApart.spelling_items (h : IsApart arguments)
    (hknown : ∀ c, .unknown c ∉ items arguments) :
    (items arguments).flatMap Item.spelling = arguments := by
  induction arguments using turns_induct with
  | nil => rfl
  | marker rest => simp [items_marker, Item.spelling, List.flatMap_map]
  | turn a rest us rest' ha hturn ih =>
    obtain ⟨is, hitems⟩ := items_of_turn ha hturn
    have hleft := ih (fun split hstep => (hstep.after_turn ha hturn).elim h) fun c hc =>
      hknown c (by simp [hitems, hc])
    cases hflags : isFlags a with
    | false =>
      rw [items_script hflags]
      cases hturn with
      | script => simp [Item.spelling, hleft]
      | _ => simp_all
    | true =>
      obtain ⟨c, cs, rfl⟩ := exists_eq_dashed hflags
      rw [items_flags ha hflags, tail_dashed] at hknown ⊢
      have hspelling := spelling_letters (fun b d hs => h _ (.here ha hflags hs rest))
        fun e he => hknown e (by simp [he])
      -- An option that is left open is spelled by its letter, with or without an operand after it.
      suffices hopened : (opened (letters (c :: cs)).2 rest).flatMap Item.spelling =
          (letters (c :: cs)).2.toList.map (fun o => dashed [o.letter]) ++ rest by
        rw [List.flatMap_append, hopened, ← List.append_assoc, hspelling]
        rfl
      rw [← tail_dashed (c :: cs)]
      cases hturn with
      | script hscript => simp [hflags] at hscript
      | closed _ his => rw [his, opened, hleft]; rfl
      | lacking _ his hlacks =>
        rw [his]
        cases rest with
        | nil => rfl
        | cons x rest => simp [opened, Item.spelling, hleft, hlacks x rfl]
      | operand _ his hx =>
        rw [his]
        simp [opened, Item.spelling, hleft, hx]

/-! ## Accepted arguments -/

/-- The scripts that an item adds. -/
def Item.scripts : Item → List String
  | .script path => [path]
  | _ => []

/-- The scripts that an argument with this use adds: itself, if it is used as one. -/
def Use.scripts : Use → String → List String
  | .script, argument => [argument]
  | _, _ => []

theorem scripts_letters (cs : List Char) : (letters cs).1.flatMap Item.scripts = [] := by
  induction cs with
  | nil => rfl
  | cons c rest ih =>
    unfold letters
    split
    · split <;> rfl
    · split
      · simpa [Item.scripts] using ih
      · rfl

theorem scripts_items (arguments : List String) :
    (items arguments).flatMap Item.scripts =
      (List.zipWith Use.scripts (uses arguments) arguments).flatten := by
  induction arguments using turns_induct with
  | nil => rfl
  | marker rest =>
    rw [items_marker, uses, if_pos rfl]
    induction rest with
    | nil => rfl
    | cons path rest ih => simp_all [Use.scripts, Item.scripts, List.replicate_succ]
  | turn a rest us rest' ha hturn ih =>
    have hletters := scripts_letters a.toList.tail
    rw [uses_of_turn ha hturn]
    cases hturn with
    | script hflags => simp [items_script hflags, Use.scripts, Item.scripts, ih]
    | closed hflags his =>
      rw [items_flags ha hflags, List.flatMap_append, hletters, his]
      exact ih
    | lacking hflags his hrest =>
      rw [items_flags ha hflags, List.flatMap_append, hletters, his]
      cases rest with
      | nil => rfl
      | cons x rest => simpa [opened, hrest x rfl, Item.scripts, Use.scripts] using ih
    | operand hflags his hx =>
      rw [items_flags ha hflags, List.flatMap_append, hletters, his]
      simpa [opened, hx, Item.scripts, Use.scripts] using ih

theorem follow_ok {line line' : CommandLine} {item : Item} (h : line.follow item = .ok line') :
    (∀ c, item ≠ .unknown c) ∧ line'.scripts = line.scripts ++ item.scripts := by
  cases item with
  | switch c =>
    cases h
    simp only [turnOn, Item.scripts]
    split_ifs <;> simp
  | taken o x =>
    cases o with
    | tickLength =>
      simp only [follow, take] at h
      split at h <;> cases h
      simp [Item.scripts]
    | _ =>
      cases h
      simp [Item.scripts]
  | lacking o => cases o <;> cases h; simp [Item.scripts]
  | unknown c => cases h
  | _ =>
    cases h
    simp [Item.scripts]

theorem foldlM_follow_ok {line line' : CommandLine} (h : is.foldlM follow line = .ok line') :
    (∀ c, .unknown c ∉ is) ∧ line'.scripts = line.scripts ++ is.flatMap Item.scripts := by
  induction is generalizing line with
  | nil =>
    cases h
    simp
  | cons item is ih =>
    rw [List.foldlM_cons] at h
    cases hitem : line.follow item with
    | error e =>
      rw [hitem] at h
      cases h
    | ok next =>
      rw [hitem] at h
      obtain ⟨hknown, hscripts⟩ := ih h
      obtain ⟨hitem, hnext⟩ := follow_ok hitem
      refine ⟨fun c hc => ?_, ?_⟩
      · rcases List.mem_cons.mp hc with rfl | hc
        · exact hitem c rfl
        · exact hknown c hc
      · rw [hscripts, hnext, List.append_assoc, List.flatMap_cons]

theorem items_eq_of_reaches (h : Relation.ReflTransGen SplitStep arguments split) :
    items split = items arguments := by
  induction h with
  | refl => rfl
  | tail _ hstep ih => rw [hstep.items_eq, ih]

/-- However an accepted list of arguments is split, it is read the same, and there is one form that
is split fully. Each argument is used once. -/
theorem option_spellings_are_interchangeable (arguments : List String) :
    (∀ split, SplitStep arguments split → read split = read arguments) ∧
      (uses arguments).length = arguments.length ∧
      read arguments =
        (List.zipWith Use.items (uses arguments) arguments).flatten.foldlM follow {} ∧
      (∀ i o, (uses arguments)[i]? = some (.operand o) →
        ∃ j a is, i = j + 1 ∧ arguments[j]? = some a ∧ (uses arguments)[j]? = some (.flags is) ∧
          letters a.toList.tail = (is, some o)) ∧
      (∀ a, (Use.marker, a) ∈ (uses arguments).zip arguments → a = "--") ∧
      ∀ line, read arguments = .ok line →
        (∃! apart, Relation.ReflTransGen SplitStep arguments apart ∧ IsApart apart) ∧
        (∀ split, Relation.ReflTransGen SplitStep arguments split → read split = .ok line) ∧
        line.scripts = (List.zipWith Use.scripts (uses arguments) arguments).flatten := by
  refine ⟨fun split hstep => ?_, length_uses _, read_eq _, fun i o => exists_open_before,
    fun a => eq_of_marker, fun line hline => ?_⟩
  · rw [read_eq, read_eq, hstep.items_eq]
  obtain ⟨hknown, hscripts⟩ := foldlM_follow_ok (read_eq arguments ▸ hline)
  have hspelled : ∀ apart, Relation.ReflTransGen SplitStep arguments apart ∧ IsApart apart →
      apart = (items arguments).flatMap Item.spelling := by
    rintro apart ⟨hreach, hapart⟩
    rw [← items_eq_of_reaches hreach] at hknown ⊢
    exact (hapart.spelling_items hknown).symm
  refine ⟨?_, fun split hreach => ?_, ?_⟩
  · obtain ⟨apart, hapart⟩ := exists_isApart arguments
    exact ⟨apart, hapart, fun other hother => (hspelled other hother).trans
      (hspelled apart hapart).symm⟩
  · rw [read_eq, items_eq_of_reaches hreach, ← read_eq, hline]
  · rw [hscripts, ← scripts_items]
    rfl

namespace Bundled

def given : List String := ["-qd", "-c", "x", "s"]

def line : CommandLine := { quiet := true, debug := true, commands := ["x"], scripts := ["s"] }

theorem splitStep : SplitStep given ["-q", "-d", "-c", "x", "s"] :=
  have hsplits : Splits "-qd" "-q" "-d" := .letters rfl (by simp) (by decide)
  .here (by decide) rfl hsplits _

theorem read_given : read given = .ok line := rfl

end Bundled

theorem bundled_letters_can_be_split :
    read ["-q", "-d", "-c", "x", "s"] = read Bundled.given ∧
      (∃ j a is, 2 = j + 1 ∧ Bundled.given[j]? = some a ∧
        (uses Bundled.given)[j]? = some (.flags is) ∧
          letters a.toList.tail = (is, some .command)) ∧
      (∃! apart, Relation.ReflTransGen SplitStep Bundled.given apart ∧ IsApart apart) :=
  have h := option_spellings_are_interchangeable Bundled.given
  ⟨h.1 _ Bundled.splitStep, h.2.2.2.1 2 .command rfl, (h.2.2.2.2.2 _ Bundled.read_given).1⟩

end CommandLine

end TickScript
