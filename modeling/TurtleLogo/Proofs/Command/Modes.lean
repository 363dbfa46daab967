import TurtleLogo.Command.Respond
import TurtleLogo.Proofs.Run.Fuel
import TurtleLogo.Proofs.Run.Output
import TurtleLogo.Proofs.Text.Line

set_option autoImplicit false

/-! # The two modes of output

A script is answered with the same lines and the same code in both modes (`modes_agree`). The lines
of the text mode and the messages of the JSON object are one for one the lines that the program
wrote, since none of them has a line break in it; and the program wrote the same lines, since what
becomes of a line is nothing that it could find out. -/

namespace TurtleLogo

/-! ## Runs of a source -/

namespace Outcome

variable {α : Type} {w : World} {result : Except Fault α} {o : Outcome α}

theorem result?_eq_some_iff : o.result? = some (result, w) ↔
    (∃ a, o = .done a w ∧ result = .ok a) ∨ ∃ e, o = .exit e w ∧ result = .error e.toFault := by
  cases o with
  | done a w₁ => simp [result?, eq_comm, and_comm]
  | exit e w₁ => simp [result?, eq_comm, and_comm]
  | exhausted => simp [result?]

theorem ne_exhausted_of_result? (ho : o.result? = some (result, w)) : o ≠ .exhausted := by
  rintro rfl
  simp [result?] at ho

theorem Ends.of_result? {P : World → Prop} (h : o.Ends P) (ho : o.result? = some (result, w)) :
    P w := by
  rcases result?_eq_some_iff.mp ho with ⟨a, rfl, -⟩ | ⟨e, rfl, -⟩
  · exact h
  · exact h

theorem result?_after (ho : o.result? = some (result, w)) (before : Array String) :
    (o.after before).result? = some (result, w.after before) := by
  rcases result?_eq_some_iff.mp ho with ⟨a, rfl, rfl⟩ | ⟨e, rfl, rfl⟩
  · rfl
  · rfl

end Outcome

namespace Session

variable {source : String} {keep : Bool} {w w' : World}
variable {result : Except Failure (Option Atom)}

/-- A source that was run to an end was refused by the reader, or all its atoms were run. -/
theorem runSource_cases (h : runSource source keep w = some (result, w')) :
    (∃ e, read source = .error e ∧ result = .error (.reading e) ∧ w' = w) ∨
    ∃ code result', read source = .ok code ∧ result = result'.mapError .running ∧
      (interpret ampleFuel (.execute code keep) w).result? = some (result', w') := by
  unfold runSource at h
  split at h
  · next e hread =>
    simp only [Option.some.injEq, Prod.mk.injEq] at h
    exact Or.inl ⟨e, hread, h.1.symm, h.2.symm⟩
  · next code hread =>
    obtain ⟨⟨result', w₁⟩, hrun, hmap⟩ := Option.map_eq_some_iff.mp h
    simp only [Prod.mk.injEq] at hmap
    obtain ⟨rfl, rfl⟩ := hmap
    exact Or.inr ⟨code, result', hread, rfl, hrun⟩

/-- A source whose atoms are run to an end on some fuel ends the same way on ample fuel. -/
theorem runSource_of_result? {code : List Atom} {fuel : Nat} {result' : Except Fault (Option Atom)}
    (hread : read source = .ok code) (hle : fuel ≤ ampleFuel)
    (hrun : (interpret fuel (.execute code keep) w).result? = some (result', w')) :
    runSource source keep w = some (result'.mapError .running, w') := by
  have hample : run code keep w = some (result', w') := by
    rw [← hrun, ← interpret_mono hle (Outcome.ne_exhausted_of_result? hrun)]
    rfl
  simp only [runSource, hread, hample, Option.map_some]

/-- What was written before makes no difference to a source. -/
theorem runSource_after (h : runSource source keep w = some (result, w')) (before : Array String) :
    runSource source keep (w.after before) = some (result, w'.after before) := by
  rcases runSource_cases h with ⟨e, hread, rfl, rfl⟩ | ⟨code, result', hread, rfl, hrun⟩
  · simp only [runSource, hread]
  · have hafter := Outcome.result?_after hrun before
    rw [← interpret_after (Outcome.ne_exhausted_of_result? hrun)] at hafter
    exact runSource_of_result? hread (Nat.le_refl _) hafter

/-- The words of a source have no blanks in them. -/
theorem over_of_read {code : List Atom} (h : read source = .ok code) :
    ∀ a ∈ code, a.Over fun c => Text.isBlank c = false :=
  fun a ha => (built_of_read h a ha).over fun _ hw c hc => (hw.chars.2 c hc).1

/-- Every line that a source writes has no blanks but spaces. -/
theorem runSource_spaced (h : runSource source keep w = some (result, w'))
    (hw : w.Over fun c => Text.isBlank c = false) : ∀ line ∈ w'.lines.toList, Text.Spaced line := by
  have hover : w'.Over fun c => Text.isBlank c = false := by
    rcases runSource_cases h with ⟨e, -, -, rfl⟩ | ⟨code, result', hread, -, hrun⟩
    · exact hw
    · exact (execute_over ampleFuel (over_of_read hread) keep hw).of_result? hrun
  exact fun line hline => (hover.lines line (by simpa using hline)).spaced

end Session

/-! ## Reading a report -/

namespace Json

/-- The member of an object that has this name. -/
def member? (key : String) : Json → Option Json
  | object members => members.lookup key
  | _ => none

/-- The items of an array. -/
def items? : Json → Option (List Json)
  | array items => some items
  | _ => none

/-- The characters of a string. -/
def text? : Json → Option String
  | text s => some s
  | _ => none

end Json

namespace Report

/-- The messages in the console of a report, in order. -/
def messages? (report : Json) : Option (List String) := do
  let console ← report.member? "console"
  let entries ← console.items?
  entries.mapM fun entry => (entry.member? "message").bind Json.text?

/-- The names on the stack of a report, in order. -/
def stack? (report : Json) : Option (List String) := do
  let stack ← report.member? "stack"
  let names ← stack.items?
  names.mapM Json.text?

theorem mapM_message (entries : List Entry) :
    (entries.map Entry.toJson).mapM (fun entry => (entry.member? "message").bind Json.text?)
      = some (entries.map (·.message)) := by
  induction entries with
  | nil => rfl
  | cons e rest ih =>
    rw [List.map_cons, List.mapM_cons, ih]
    rfl

theorem mapM_text (names : List String) :
    (names.map Json.text).mapM Json.text? = some names := by
  induction names with
  | nil => rfl
  | cons name rest ih =>
    rw [List.map_cons, List.mapM_cons, ih]
    rfl

theorem messages?_completed (t : Turtle) (milliseconds : Nat) (entries : List Entry) :
    messages? (completed t milliseconds entries) = some (entries.map (·.message)) :=
  mapM_message entries

theorem messages?_failure (entries : List Entry) (f : Failure) :
    messages? (failure entries f) = some (entries.map (·.message)) := by
  cases f with
  | reading e => exact mapM_message entries
  | running f => exact mapM_message entries

theorem stack?_running (entries : List Entry) (f : Fault) :
    stack? (failure entries (.running f)) = some f.stack.reverse :=
  mapM_text f.stack.reverse

end Report

/-! ## The two modes -/

namespace Command

/-- What is reported of a script that ended. -/
def Ending.report (e : Ending) (milliseconds : Nat) : Json :=
  match e.failure? with
  | none => Report.completed e.world.turtle milliseconds (entries e.world)
  | some f => Report.failure (entries e.world) f

variable {e : Ending}

theorem Ending.messages?_report (e : Ending) (milliseconds : Nat) :
    Report.messages? (e.report milliseconds) = some e.world.lines.toList := by
  have hentries : (entries e.world).map (·.message) = e.world.lines.toList := by
    simp [entries, Function.comp_def]
  rw [← hentries]
  unfold Ending.report
  split
  · exact Report.messages?_completed _ _ _
  · exact Report.messages?_failure _ _

/-- The responses of the two modes to one script say the same; `report` is the object that the
second mode writes. -/
structure Response.Agree (text json : Response) (report : Json) : Prop where
  code : text.code = json.code
  object : json.stdout = report.write ++ "\n"
  /-- The messages are the lines, one for one. -/
  messages : Report.messages? report = some (Text.lines text.stdout)
  /-- There is nothing but lines, and each is ended. -/
  whole : text.stdout = unlines (Text.lines text.stdout)
  /-- No line has a line break in it, or any other blank but spaces. -/
  spaced : ∀ line ∈ Text.lines text.stdout, Text.Spaced line

theorem Ending.agree (hlines : ∀ line ∈ e.world.lines.toList, Text.Spaced line) (source : String)
    (ms ms' : Nat) :
    (e.respond .text source ms).Agree (e.respond .json source ms') (e.report ms') := by
  have hstdout : (e.respond .text source ms).stdout = unlines e.world.lines.toList := by
    unfold Ending.respond
    split <;> simp_all
  have hread : Text.lines (e.respond .text source ms).stdout = e.world.lines.toList := by
    rw [hstdout]
    exact Text.lines_join hlines
  refine ⟨?_, ?_, ?_, ?_, ?_⟩
  · unfold Ending.respond
    cases e.failure? with
    | none => rfl
    | some f => rfl
  · unfold Ending.respond Ending.report
    cases e.failure? with
    | none => rfl
    | some f => rfl
  · rw [hread]
    exact e.messages?_report ms'
  · rw [hread, hstdout]
  · rw [hread]
    exact hlines

theorem startWorld_over (o : Options) {S : Char → Prop} : (startWorld o).Over S := by
  refine ⟨Registry.Over.standard, ⟨by simp [startWorld], ?_⟩, by simp [startWorld]⟩
  intro name a hget
  simp [startWorld, NameTable.get?] at hget

/-- The part of a message that lists `names` in order, each with its place. -/
def stackTrace (names : List String) : String :=
  if names.isEmpty then ""
  else "\nStack trace:\n" ++ String.join (names.zipIdx.map fun x => Report.traceLine x.2 x.1)

theorem numbered_eq_zipIdx (names : List String) (n : Nat) :
    Report.numbered n names = (names.zipIdx n).map fun x => (x.2, x.1) := by
  induction names generalizing n with
  | nil => rfl
  | cons name rest ih => simp [Report.numbered, ih]

theorem running_eq_stackTrace (message : String) (stack : List String) :
    Report.running message stack
      = "\n" ++ Report.runningLine message ++ "\n" ++ stackTrace stack.reverse := by
  simp [Report.running, stackTrace, Report.trace, numbered_eq_zipIdx, Function.comp_def]

/-- If a script runs to an end, then it ends the same way whichever mode it is run in, and whatever
was written before it. The code is 0 if the script succeeds and 2 if not; the lines of the text mode
are the messages of the JSON object, in order and one for one; and where the script fails while it
runs, the stack of the object lists the procedures in the order of the stack trace. -/
theorem modes_agree (o : Options) (source : String) (ms ms' : Nat)
    {result : Except Failure (Option Atom)} {w : World}
    (hrun : Session.runSource source false (startWorld o) = some (result, w)) :
    ∃ e : Ending,
      (∀ mode, runScript { o with mode } source = some e) ∧
      (∀ mode, (e.respond mode source ms).code = if result.isOk then 0 else 2) ∧
      (e.respond .text source ms).Agree (e.respond .json source ms') (e.report ms') ∧
      (∀ f, result = .error (.running f) → ∃ names,
        Report.stack? (e.report ms') = some names ∧
        (e.respond .text source ms).stderr
          = "\n" ++ Report.runningLine f.cause.message ++ "\n" ++ stackTrace names ++ "\n") ∧
      ∀ before, Session.runSource source false ((startWorld o).after before)
        = some (result, w.after before) := by
  have hlines := Session.runSource_spaced hrun (startWorld_over o)
  have hbefore := Session.runSource_after hrun
  cases result with
  | ok v =>
    have hagree := Ending.agree (e := ⟨none, w⟩) hlines source ms ms'
    refine ⟨_, fun mode => ?_, fun mode => ?_, hagree, ?_, hbefore⟩
    · -- The mode is no part of the state in which a script starts.
      have hsame : Session.runSource source false (startWorld { o with mode }) = some (.ok v, w) :=
        hrun
      simp [runScript, hsame]
    · cases mode <;> rfl
    · intro f hf
      cases hf
  | error f =>
    have hagree := Ending.agree (e := ⟨some f, w⟩) hlines source ms ms'
    refine ⟨_, fun mode => ?_, fun mode => ?_, hagree, ?_, hbefore⟩
    · have hsame : Session.runSource source false (startWorld { o with mode })
          = some (.error f, w) := hrun
      simp [runScript, hsame]
    · cases mode <;> rfl
    · rintro f' hf
      obtain rfl := Except.error.inj hf
      refine ⟨f'.stack.reverse, Report.stack?_running _ f', ?_⟩
      show Report.running f'.cause.message f'.stack ++ "\n" = _
      rw [running_eq_stackTrace]

/-- A script that writes a line and then fails within two procedures. -/
theorem modes_agree_nested :
    ∃ (f : Fault) (w : World) (e : Ending),
      Session.runSource "print \"hi repeat 1 [run [x]]" false (startWorld {})
        = some (.error (.running f), w) ∧
      (∀ mode, runScript { mode } "print \"hi repeat 1 [run [x]]" = some e) ∧
      (∀ mode, (e.respond mode "print \"hi repeat 1 [run [x]]" 0).code = 2) ∧
      (e.respond .text "print \"hi repeat 1 [run [x]]" 0).Agree
        (e.respond .json "print \"hi repeat 1 [run [x]]" 7) (e.report 7) ∧
      Report.messages? (e.report 7) = some ["hi"] ∧
      Report.stack? (e.report 7) = some ["RUN", "REPEAT"] ∧
      (e.respond .text "print \"hi repeat 1 [run [x]]" 0).stderr
        = "\n" ++ Report.runningLine f.cause.message ++ "\n" ++ stackTrace ["RUN", "REPEAT"]
          ++ "\n" := by
  have hread : read "print \"hi repeat 1 [run [x]]" = .ok [.word "print", .word "\"hi",
      .word "repeat", .word "1", .list [.word "run", .list [.word "x"]]] := rfl
  have heval : (interpret 9 (.execute [.word "print", .word "\"hi", .word "repeat", .word "1",
      .list [.word "run", .list [.word "x"]]] false) (startWorld {})).result?.map
        (fun x => (match x.1 with | .error f => f.stack | .ok _ => [], x.2.lines))
      = some (["REPEAT", "RUN"], #["hi"]) := by decide +kernel
  obtain ⟨⟨result, w⟩, hresult, hvalues⟩ := Option.map_eq_some_iff.mp heval
  obtain ⟨hstack, hlines⟩ := Prod.mk.inj hvalues
  cases result with
  | ok v => cases hstack
  | error f =>
    have hrun : Session.runSource "print \"hi repeat 1 [run [x]]" false (startWorld {})
        = some (.error (.running f), w) :=
      Session.runSource_of_result? hread (by decide) hresult
    obtain ⟨e, hsame, hcode, hagree, htrace, -⟩ := modes_agree {} _ 0 7 hrun
    have he : some (Ending.mk (some (.running f)) w) = some e := by
      rw [← hsame .text, runScript, hrun, Option.map_some]
    obtain rfl := Option.some.inj he
    obtain ⟨names, hnames, hstderr⟩ := htrace f rfl
    have hreverse : names = ["RUN", "REPEAT"] := by
      rw [← Option.some.inj ((Report.stack?_running _ f).symm.trans hnames)]
      exact congrArg List.reverse hstack
    rw [hreverse] at hnames hstderr
    refine ⟨f, w, _, hrun, hsame, hcode, hagree, ?_, hnames, hstderr⟩
    rw [Ending.messages?_report]
    exact congrArg (some ·.toList) hlines

end Command

end TurtleLogo
