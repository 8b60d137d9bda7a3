-- The globals of a start-up file. A line may define just the names that are read as a name on their
-- own, and on a machine with the settings such a name is a script that gives its last value.
import TickScript.Interpreter
import TickScript.Proofs.Destructuring
import TickScript.Proofs.Directives

namespace TickScript.Config

open TickScript.Text

variable {v : Value} {name : String}

/-! ## Names -/

/-- The text is read as one token, which is a name and is spelled as the text. -/
def IsNameAlone (name : String) : Prop :=
  ∃ t, tokenize Language.standard.operators ⟨name, none⟩ = .ok [t] ∧ t.lexeme = ⟨.name, name⟩

theorem isNameAlone_iff : IsNameAlone name ↔ IsWord name.toList := by
  constructor
  · rintro ⟨t, htokens, ht⟩
    have hlegal := legal_of_tokenize Language.knows_standard htokens t (List.mem_singleton_self t)
    rw [ht] at hlegal
    cases hlegal
    assumption
  · intro h
    have hnames : ∀ other ∈ (Target.single name).names, IsWord other.toList :=
      List.forall_mem_singleton.mpr h
    obtain ⟨tokens, hemits, hlexemes⟩ := Target.reads_alone hnames Language.standard.operators
      ⟨name, none⟩ (.ofCode name true) rfl rfl rfl rfl
    obtain ⟨t, rfl, ht⟩ := List.map_eq_singleton_iff.mp hlexemes
    exact ⟨t, tokenize_of_emits hemits, ht⟩

section

variable {line : String} {args name value : List Char}

/-- A name is all that is asked of a definition. -/
theorem readLine_of_assigns (c : Config) (hline : Directs line "global" args)
    (hargs : Assigns args name value) :
    c.readLine line = if isVariableName name then
      .ok (follow c (.global (String.ofList name) (literal value)))
      else .error (.badName (String.ofList name)) := by
  rw [readLine_of_directs c hline]
  change c.readGlobal args = _
  unfold readGlobal
  rw [splitAssignment?_iff.mpr hargs]
  rfl

theorem means_of_isNameAlone (hline : Directs line "global" args) (hargs : Assigns args name value)
    (hname : IsNameAlone (String.ofList name)) (hvalue : Denotes value v) :
    Means line (.global (String.ofList name) v) := by
  rw [isNameAlone_iff, String.toList_ofList] at hname
  exact .global hline hargs hname hvalue

theorem isVariableName_iff_isNameAlone :
    isVariableName name = true ↔ IsNameAlone (String.ofList name) := by
  rw [isWord_iff, isNameAlone_iff, String.toList_ofList]

end

/-! ## Definitions of a file -/

/-- The last definition of the name in the text gives it this value. -/
def Configures (text name : String) (v : Value) : Prop :=
  ∃ ds before after, Asks (lines text) ds ∧
    ds.filterMap Directive.definition? = before ++ (name, v) :: after ∧
    name ∉ after.map Prod.fst

theorem exists_isOutcome (text : String) :
    ∃ ds, Asks (lines text) ds ∧ IsOutcome ds (read text).1 := by
  obtain ⟨ds, hds⟩ := exists_asks (lines text)
  have hread : (read text).1 = ds.foldl follow {} := fst_readLines hds {} 1
  exact ⟨ds, hds, hread ▸ isOutcome_foldl ds⟩

theorem configures_iff {text name : String} :
    Configures text name v ↔ (name, v) ∈ (read text).1.globals := by
  obtain ⟨ds, hds, houtcome⟩ := exists_isOutcome text
  rw [houtcome.globals]
  constructor
  · rintro ⟨ds', before, after, hds', hsplit⟩
    cases hds'.unique hds
    exact ⟨before, after, hsplit⟩
  · rintro ⟨before, after, hsplit⟩
    exact ⟨ds, before, after, hds, hsplit⟩

theorem Asks.mem {lines : List String} {ds : List Directive} (h : Asks lines ds) {line : String}
    (hline : line ∈ lines) {d : Directive} (hd : Means line d) : d ∈ ds := by
  induction h with
  | nil => cases hline
  | cons hmeans _ ih =>
    rcases List.mem_cons.mp hline with rfl | hline
    · exact hd.unique hmeans ▸ List.mem_cons_self
    · exact List.mem_cons_of_mem _ (ih hline)
  | idle hidle _ ih =>
    rcases List.mem_cons.mp hline with rfl | hline
    · exact absurd ⟨d, hd⟩ (idle_iff.mp hidle)
    · exact ih hline

theorem Asks.exists_line {lines : List String} {ds : List Directive} (h : Asks lines ds)
    {d : Directive} (hd : d ∈ ds) : ∃ line ∈ lines, Means line d := by
  induction h with
  | nil => cases hd
  | cons hmeans _ ih =>
    rcases List.mem_cons.mp hd with rfl | hd
    · exact ⟨_, List.mem_cons_self, hmeans⟩
    · obtain ⟨line, hline, hmeans⟩ := ih hd
      exact ⟨line, List.mem_cons_of_mem _ hline, hmeans⟩
  | idle _ _ ih =>
    obtain ⟨line, hline, hmeans⟩ := ih hd
    exact ⟨line, List.mem_cons_of_mem _ hline, hmeans⟩

/-- Only words are defined. -/
theorem Configures.isWord {text name : String} (h : Configures text name v) :
    IsWord name.toList := by
  obtain ⟨ds, before, after, hds, hsplit, -⟩ := h
  have hmem : (name, v) ∈ ds.filterMap Directive.definition? := by rw [hsplit]; simp
  obtain ⟨d, hd, hdefinition⟩ := List.mem_filterMap.mp hmem
  obtain ⟨line, -, hmeans⟩ := hds.exists_line hd
  cases hmeans with
  | set _ _ hsets => cases hsets <;> cases hdefinition
  | global _ _ hname =>
    cases hdefinition
    rwa [String.toList_ofList]
  | load => cases hdefinition

/-- A name that some line defines has a last definition. -/
theorem exists_configures {text line name : String} (hline : line ∈ lines text)
    (hmeans : Means line (.global name v)) : ∃ w, Configures text name w := by
  obtain ⟨ds, hds, houtcome⟩ := exists_isOutcome text
  have hmem : (name, v) ∈ ds.filterMap Directive.definition? :=
    List.mem_filterMap.mpr ⟨_, hds.mem hline hmeans, rfl⟩
  have hname : name ∈ (read text).1.globals.map Prod.fst := by
    rw [houtcome.names, List.mem_dedup]
    exact List.mem_map_of_mem hmem
  obtain ⟨⟨_, w⟩, hw, rfl⟩ := List.mem_map.mp hname
  exact ⟨w, configures_iff.mpr hw⟩

/-! ## On a machine -/

theorem get?_foldl_define_of_notMem {globals : List (String × Value)}
    (h : name ∉ globals.map Prod.fst) (m : Machine) :
    (Machine.globals (globals.foldl (fun m (name, v) => m.define name v) m)).get? name =
      m.globals.get? name := by
  induction globals generalizing m with
  | nil => rfl
  | cons g globals ih =>
    obtain ⟨hg, hglobals⟩ := not_or.mp (mt List.mem_cons.mpr h)
    rw [List.foldl_cons, ih hglobals]
    exact (Registry.get?_set ..).trans (if_neg hg)

/-- Whatever the machine has under a name, its definition takes the place of it. -/
theorem get?_apply {c : Config} (hnodup : (c.globals.map Prod.fst).Nodup)
    (h : (name, v) ∈ c.globals) (m : Machine) :
    (c.apply m).globals.get? name = some (v.bindTo name) := by
  unfold apply
  generalize c.globals = globals at hnodup h
  induction globals generalizing m with
  | nil => cases h
  | cons g globals ih =>
    obtain ⟨hg, hnodup⟩ := List.nodup_cons.mp hnodup
    rw [List.foldl_cons]
    rcases List.mem_cons.mp h with rfl | h
    · rw [get?_foldl_define_of_notMem hg]
      exact (Registry.get?_set ..).trans (if_pos rfl)
    · exact ih _ hnodup h

/-- A name that stands for a value is a script, which has this value and changes nothing. -/
theorem runCode_of_isWord (hname : IsWord name.toList) {m : Machine}
    (hv : m.globals.get? name = some v) (locals : Registry Value) :
    runCode .standard name ⟨locals, m⟩ = .ok (v.bindTo name) ⟨locals, m⟩ := by
  have hspares : ∀ r ∈ ([] : List Registration), r.SparesAssignment := List.forall_mem_nil _
  obtain ⟨script, hread, hevaluate⟩ := evaluate_of_target hspares (P := .single name)
    (List.forall_mem_singleton.mpr hname) (show 1 ≤ maxNesting by decide) none
  have hempty : State.get? ⟨.empty, m⟩ name = some v := by
    unfold State.get?
    split
    · exact hv
    · exact hv
  have hvalue := hevaluate (s := ⟨.empty, m⟩)
    (List.forall_mem_singleton.mpr (by rw [hempty]; rfl)) .value
  change Script.read .standard ⟨name, none⟩ = .ok script at hread
  change script.evaluate (evaluate .standard) .value ⟨.empty, m⟩ =
    .ok (((State.get? ⟨.empty, m⟩ name).getD .null).bindTo name) ⟨.empty, m⟩ at hvalue
  rw [hempty] at hvalue
  simp [runCode, readReported, Run.reported, Run.withLocals, bind, EStateM.bind, hread, hvalue]

/-! ## Files and scripts -/

/-- A directive with its arguments. -/
def directiveLine (word : String) (args : List Char) : String :=
  String.ofList (('/' :: word.toList) ++ (Gap.space.chars ++ args))

theorem directs_directiveLine {word : String} (hword : IsWord word.toList) {args : List Char}
    (hargs : Trimmed args) (hne : args ≠ []) : Directs (directiveLine word args) word args := by
  have hstart : Trimmed ('/' :: word.toList) :=
    trimmed_of_not_blank (List.forall_mem_cons.mpr
      ⟨by decide, fun c hc => isBlank_of_continuesName (hword.continuesName c hc)⟩)
  have hline := hstart.append (List.cons_ne_nil _ _) hargs hne Gap.space.chars
  refine ⟨word.toList ++ (Gap.space.chars ++ args), ?_,
    splitWord_append hword.not_isWordBreak Gap.isBreak_space hargs⟩
  rw [directiveLine, String.toList_ofList, hline.trimChars_eq, List.cons_append]

theorem isWord_global : IsWord "global".toList := by
  have hchars : "global".toList = ['g', 'l', 'o', 'b', 'a', 'l'] := rfl
  rw [hchars]
  exact isWord_of_all (by decide)

theorem assigns_of_isWord {name value : List Char} (hname : IsWord name) (hvalue : Trimmed value) :
    Assigns (name ++ '=' :: value) name value := by
  have hequals : '=' ∉ name := fun hmem => absurd (hname.continuesName _ hmem) (by decide)
  have htrim := hname.trimmed.trimChars_eq
  have hassigns : Assigns (name ++ '=' :: value) (trimChars name) (trimChars value) :=
    .equals hequals (htrim.symm ▸ hname.ne_nil)
  rwa [htrim, hvalue.trimChars_eq] at hassigns

/-- A line that defines a global is accepted just when its name is read as a name on its own, and
there is such a line for every such name. On a machine with the settings of a file every name that
one of its lines defines is a script, which gives the value of the last definition, bound to the
name. -/
theorem globals_are_names_of_scripts :
    (∀ line args name value, Directs line "global" args → Assigns args name value →
      ∀ c : Config,
        ((∃ c', c.readLine line = .ok c') ↔ IsNameAlone (String.ofList name)) ∧
        ∀ c', c.readLine line = .ok c' →
          ∃ v, Denotes value v ∧ c' = follow c (.global (String.ofList name) v)) ∧
    (∀ name value, IsNameAlone (String.ofList name) → Trimmed value → value ≠ [] →
      ∃ line args, Directs line "global" args ∧ Assigns args name value) ∧
    ∀ text : String,
      (∀ line ∈ lines text, ∀ args name value, Directs line "global" args →
        Assigns args name value → IsNameAlone (String.ofList name) →
          ∃ v, Configures text (String.ofList name) v) ∧
      ∀ name v, Configures text name v →
        IsNameAlone name ∧ ∀ (m : Machine) (locals : Registry Value),
          runCode .standard name ⟨locals, (read text).1.apply m⟩ =
            .ok (v.bindTo name) ⟨locals, (read text).1.apply m⟩ := by
  refine ⟨fun line args name value hline hargs c => ?_, fun name value hname hvalue hne => ?_,
    fun text => ⟨fun line hline args name value hdirects hargs hname => ?_, fun name v h => ?_⟩⟩
  · rw [readLine_of_assigns c hline hargs, ← isVariableName_iff_isNameAlone]
    by_cases hname : isVariableName name = true
    · simp [hname, denotes_iff]
    · simp [hname]
  · rw [isNameAlone_iff, String.toList_ofList] at hname
    have hargs : Trimmed (name ++ (['='] ++ value)) :=
      hname.trimmed.append hname.ne_nil hvalue hne ['=']
    exact ⟨_, _, directs_directiveLine isWord_global hargs (by simp),
      assigns_of_isWord hname hvalue⟩
  · exact exists_configures hline
      (means_of_isNameAlone hdirects hargs hname (denotes_iff.mpr rfl))
  · have hname := h.isWord
    refine ⟨isNameAlone_iff.mpr hname, fun m locals => ?_⟩
    obtain ⟨ds, _, houtcome⟩ := exists_isOutcome text
    exact runCode_of_isWord hname (get?_apply houtcome.nodup (configures_iff.mp h) m) locals

namespace Renewed

/-- A constant is defined twice, and a text that is no name once. -/
def text : String := "/global pi=2\n/global pi=three\n/global 2pi=six"

def three : Value := .text "three"

theorem lines_text : lines text = ["/global pi=2", "/global pi=three", "/global 2pi=six"] := by
  decide

theorem isNameAlone_pi : IsNameAlone (String.ofList ['p', 'i']) := by
  rw [isNameAlone_iff, String.toList_ofList]
  exact isWord_of_all (by decide)

/-- The first line and the second. -/
theorem directs_text : Directs "/global pi=2" "global" "pi=2".toList ∧
    Directs "/global pi=three" "global" "pi=three".toList :=
  ⟨⟨"global pi=2".toList, by decide, by decide⟩,
    ⟨"global pi=three".toList, by decide, by decide⟩⟩

theorem assigns_text : Assigns "pi=2".toList ['p', 'i'] ['2'] ∧
    Assigns "pi=three".toList ['p', 'i'] ['t', 'h', 'r', 'e', 'e'] :=
  ⟨splitAssignment?_iff.mp (by decide), splitAssignment?_iff.mp (by decide)⟩

theorem directs_last : Directs "/global 2pi=six" "global" "2pi=six".toList ∧
    Assigns "2pi=six".toList ['2', 'p', 'i'] ['s', 'i', 'x'] :=
  ⟨⟨"global 2pi=six".toList, by decide, by decide⟩,
    splitAssignment?_iff.mp (by decide)⟩

theorem denotes_three : Denotes ['t', 'h', 'r', 'e', 'e'] three := by
  have hquoted : unquoted? ['t', 'h', 'r', 'e', 'e'] = none := rfl
  have hread : Number.read? (String.ofList ['t', 'h', 'r', 'e', 'e']) = none :=
    Option.isNone_iff_eq_none.mp (by decide)
  rw [denotes_iff, literal, hquoted, hread]
  rfl

theorem configures_pi : Configures text (String.ofList ['p', 'i']) three := by
  have hfirst := means_of_isNameAlone directs_text.1 assigns_text.1 isNameAlone_pi
    (denotes_iff.mpr rfl)
  have hsecond := means_of_isNameAlone directs_text.2 assigns_text.2 isNameAlone_pi denotes_three
  have hlast : Malformed "/global 2pi=six" := (readLine_error_iff {}).mp ⟨.badName "2pi", rfl⟩
  have hasks := Asks.cons hfirst (.cons hsecond (.idle (.malformed hlast) .nil))
  rw [← lines_text] at hasks
  exact ⟨_, [_], [], hasks, rfl, by simp⟩

end Renewed

open Renewed in
theorem a_constant_is_renewed :
    (Machine.standard.globals.get? "pi").isSome = true ∧
      (∃ c', ({} : Config).readLine "/global pi=three" = .ok c') ∧
      (¬ ∃ c', ({} : Config).readLine "/global 2pi=six" = .ok c') ∧
      runCode .standard "pi" ⟨.empty, (read text).1.apply .standard⟩ =
        .ok (three.bindTo "pi") ⟨.empty, (read text).1.apply .standard⟩ := by
  obtain ⟨haccepts, -, htext⟩ := globals_are_names_of_scripts
  have hrefused : ¬ IsNameAlone (String.ofList ['2', 'p', 'i']) := by
    rw [← isVariableName_iff_isNameAlone]
    decide
  refine ⟨by decide, ?_, ?_, ((htext text).2 _ _ configures_pi).2 _ _⟩
  · exact (haccepts _ _ _ _ directs_text.2 assigns_text.2 {}).1.mpr isNameAlone_pi
  · rw [(haccepts _ _ _ _ directs_last.1 directs_last.2 {}).1]
    exact hrefused

end TickScript.Config
