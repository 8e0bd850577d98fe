import CallMigration.CommandLine.Program
import CallMigration.Proofs.Runs

/-!
# Printing while a run goes on

A program prints in the middle of its work: a line for each file that was fixed, as soon as it is
fixed, and at the end either one envelope or the errors. What it prints may be refused at any of
these points. The account of the program that keeps course and printing apart is the same as the one
that goes through the work text by text, and neither the files nor the exit code depend on what
becomes of the texts, or on their form.

## Main Definitions

* `Console` — what has been printed so far
* `visitAloud` — a run that prints while it goes on
* `Arguments.session` — the whole program, text by text
* `Arguments.withJson` — the same arguments for another form of output

## Main Statements

* `Console.foldl_see` — what has been printed about outcomes
* `visitAloud_eq` — printing does not touch the run
* `Arguments.session_eq_execute` — both accounts of the program agree
* `execute_unaffected_by_printing` — volume and exit code depend neither on the terminal nor on the
  form of output

## Design Notes

The two forms of output end on separate ways: the one maps the result to an envelope and prints it,
the other one prints errors. Each way has its own exit code here.
-/

namespace CallMigration

/-! ### The console -/

/-- The texts that arrive at standard output, if as many as `printed` have been printed before. -/
def Terminal.arrivingFrom (t : Terminal) (printed : Nat) (texts : List String) : List String :=
  ((texts.zipIdx printed).filter fun (_, n) => t.stdout n = .arrives).map Prod.fst

/-- What has been printed so far. -/
structure Console where
  /-- How many texts were printed on standard output. -/
  printed : Nat := 0
  /-- The texts among them that have arrived. -/
  arrived : List String := []
  /-- The lines on standard error. -/
  told : List String := []

namespace Console

/-- Prints lines on standard error. -/
def tell (k : Console) (lines : List String) : Console := { k with told := k.told ++ lines }

/-- Prints a line on standard error if somebody watches. -/
def status (t : Terminal) (k : Console) (line : String) : Console :=
  if t.watched then k.tell [line] else k

/-- Prints a text on standard output. Nobody reading it any more is no failure. -/
def write (t : Terminal) (k : Console) (text : String) : Option Error × Console :=
  match t.stdout k.printed with
  | .arrives => (none, { k with printed := k.printed + 1, arrived := k.arrived ++ [text] })
  | .unread => (none, { k with printed := k.printed + 1 })
  | .refused cause =>
    (some (.io cause.text (some "write stdout")), { k with printed := k.printed + 1 })

/-- Prints a notice. A failure is told, and the work goes on. -/
def notice (t : Terminal) (k : Console) (line : String) : Console :=
  match k.write t line with
  | (none, k) => k
  | (some e, k) => k.tell [Course.warning e]

/-- Prints what is to be said about a file as soon as it was visited. -/
def see (t : Terminal) (json : Bool) (course : Course) (k : Console) (o : Outcome) : Console :=
  let k := match Course.failureLine? o with
    | some line => k.status t line
    | none => k
  if json then k
  else
    match course.notice? o with
    | some line => k.notice t line
    | none => k

/-- What the program leaves behind when it ends with an exit code. -/
def close (k : Console) (code : Int) : Output where
  exitCode := clampExit code
  stdout := unlines k.arrived
  stderr := unlines k.told

end Console

/-! ### The program, text by text -/

/-- Visits the files at given paths, and prints while the run goes on. -/
def visitAloud (host : Host) (rule : Rule) (t : Terminal) (json : Bool) (course : Course)
    (v : Volume) (k : Console) : List Bytes → Run × Console
  | [] => ({ volume := v }, k)
  | path :: paths =>
    match processFile host rule course.config v path with
    | (.ok status, v) =>
      let o : Outcome := ⟨path, status⟩
      let (r, k) := visitAloud host rule t json course v (k.see t json course o) paths
      (r.after o, k)
    | (.error e, v) =>
      match course.config.onError with
      | .abort => ({ volume := v, stopped := some e }, k)
      | .keepGoing =>
        let o : Outcome := ⟨path, .failed e.display⟩
        let (r, k) := visitAloud host rule t json course v (k.see t json course o) paths
        (r.after o, k)

/-- The work that the arguments ask for: its course and report, or the error that kept it from
starting or stopped it; the volume that it leaves, and what it has printed. -/
def Arguments.work (a : Arguments) (host : Host) (t : Terminal) (v : Volume) :
    Except Error (Course × Report) × Volume × Console :=
  match a.resolve host v with
  | .error e => (.error e, v, {})
  | .ok c =>
    let start : Course :=
      { config := c, root := c.rootPath host.home, paths := visitedPaths host c v
        run := { volume := v } }
    let k : Console := {}
    let k := k.status t start.announcement
    let (r, k) := visitAloud host .withOpacity t a.json start v k start.paths
    let course := { start with run := r }
    match course.report with
    | .error e => (.error e, r.volume, k)
    | .ok report => (.ok (course, report), r.volume, k.status t (course.closingLine report))

/-- Prints an envelope on standard output as the last thing. A failure is told. -/
def Console.closeWith (t : Terminal) (k : Console) (envelope : Json) (code : Int) : Output :=
  match k.write t envelope.pretty with
  | (none, k) => k.close code
  | (some e, k) => (k.tell e.lines).close code

/-- Ends the program with one envelope. -/
def Console.endWithEnvelope (t : Terminal) (k : Console) :
    Except Error (Course × Report) → Output
  | .ok (course, report) =>
    let code := Course.exitCode report
    k.closeWith t (Envelope.ofData (course.data report) code) code
  | .error e => k.closeWith t (Envelope.ofError e) e.code.exitCode

/-- Ends the program with the errors on standard error. -/
def Console.endWithErrors (k : Console) : Except Error (Course × Report) → Output
  | .ok (_, report) =>
    let code := Course.exitCode report
    if code = 0 then k.close code
    else (k.tell (Error.filesFailed report.failedPaths).lines).close code
  | .error e => (k.tell e.lines).close e.code.exitCode

/-- The whole program for given arguments, text by text. -/
def Arguments.session (a : Arguments) (host : Host) (t : Terminal) (v : Volume) :
    Output × Volume :=
  let (result, v, k) := a.work host t v
  (if a.json then k.endWithEnvelope t result else k.endWithErrors result, v)

/-- The same arguments for another form of output. -/
def Arguments.withJson (a : Arguments) (json : Bool) : Arguments := { a with json := json }

/-! ### What has been printed -/

namespace Console

theorem write_eq (t : Terminal) (k : Console) (text : String) :
    k.write t text =
      (t.refusal? k.printed,
        { k with
          printed := k.printed + 1
          arrived := k.arrived ++ t.arrivingFrom k.printed [text] }) := by
  rw [write, Terminal.refusal?, Terminal.arrivingFrom]
  cases hfate : t.stdout k.printed <;> simp [hfate]

theorem notice_eq (t : Terminal) (k : Console) (line : String) :
    k.notice t line =
      { printed := k.printed + 1
        arrived := k.arrived ++ t.arrivingFrom k.printed [line]
        told := k.told ++ ((t.refusal? k.printed).map Course.warning).toList } := by
  rw [notice, write_eq]
  cases t.refusal? k.printed with
  | none => simp
  | some e => rfl

theorem status_eq (t : Terminal) (k : Console) (line : String) :
    k.status t line = k.tell (if t.watched then [line] else []) := by
  rw [status]
  split
  · rfl
  · rw [tell, List.append_nil]

end Console

theorem Terminal.arrivingFrom_append (t : Terminal) (printed : Nat) (texts more : List String) :
    t.arrivingFrom printed (texts ++ more) =
      t.arrivingFrom printed texts ++ t.arrivingFrom (printed + texts.length) more := by
  rw [arrivingFrom, List.zipIdx_append, List.filter_append, List.map_append]
  rfl

namespace Course

/-- The texts on standard output about an outcome. -/
def noticesAbout (course : Course) (json : Bool) (o : Outcome) : List String :=
  if json then [] else (course.notice? o).toList

/-- What is told about outcomes is told about one after another. -/
theorem outcomeLines_cons (course : Course) (t : Terminal) (json : Bool) (printed : Nat)
    (o : Outcome) (outcomes : List Outcome) :
    course.outcomeLines t json printed (o :: outcomes) =
      course.outcomeLines t json printed [o] ++
        course.outcomeLines t json (printed + (course.noticesAbout json o).length) outcomes := by
  cases json with
  | true => simp [outcomeLines, noticesAbout]
  | false => cases hfixed : o.isFixed <;> simp [outcomeLines, noticesAbout, notice?, hfixed]

/-- What is told about outcomes depends on nothing that a course has done. -/
theorem outcomeLines_congr (course other : Course) (t : Terminal) (json : Bool) (printed : Nat)
    (outcomes : List Outcome) :
    course.outcomeLines t json printed outcomes = other.outcomeLines t json printed outcomes := by
  induction outcomes generalizing printed with
  | nil => rfl
  | cons o outcomes ih => simp only [outcomeLines, ih]

end Course

namespace Console

/-- What has been printed about an outcome. -/
theorem see_eq (t : Terminal) (json : Bool) (course : Course) (k : Console) (o : Outcome) :
    k.see t json course o =
      { printed := k.printed + (course.noticesAbout json o).length
        arrived := k.arrived ++ t.arrivingFrom k.printed (course.noticesAbout json o)
        told := k.told ++ course.outcomeLines t json k.printed [o] } := by
  have hfailure : (match Course.failureLine? o with
      | some line => k.status t line
      | none => k) = k.tell (if t.watched then (Course.failureLine? o).toList else []) := by
    cases Course.failureLine? o with
    | none => simp [tell]
    | some line => exact status_eq t k line
  rw [see, hfailure]
  cases json with
  | true => simp [tell, Course.noticesAbout, Course.outcomeLines, Terminal.arrivingFrom]
  | false =>
    cases hfixed : o.isFixed with
    | true =>
      simp [tell, notice_eq, Course.noticesAbout, Course.notice?, Course.outcomeLines, hfixed]
    | false =>
      simp [tell, Course.noticesAbout, Course.notice?, Course.outcomeLines, hfixed,
        Terminal.arrivingFrom]

/-- What has been printed about outcomes, one after another. -/
theorem foldl_see (t : Terminal) (json : Bool) (course : Course) (k : Console)
    (outcomes : List Outcome) :
    outcomes.foldl (see t json course) k =
      { printed := k.printed + (outcomes.flatMap (course.noticesAbout json)).length
        arrived :=
          k.arrived ++ t.arrivingFrom k.printed (outcomes.flatMap (course.noticesAbout json))
        told := k.told ++ course.outcomeLines t json k.printed outcomes } := by
  induction outcomes generalizing k with
  | nil => simp [Course.outcomeLines, Terminal.arrivingFrom]
  | cons o outcomes ih =>
    rw [List.foldl_cons, ih, see_eq, course.outcomeLines_cons t json k.printed o outcomes,
      List.flatMap_cons, Terminal.arrivingFrom_append, List.length_append]
    simp only [List.append_assoc, Nat.add_assoc]

end Console

/-! ### Both accounts agree -/

/-- Printing does not touch the run, and prints about its outcomes in their order. -/
theorem visitAloud_eq (host : Host) (rule : Rule) (t : Terminal) (json : Bool) (course : Course)
    (v : Volume) (k : Console) (paths : List Bytes) :
    visitAloud host rule t json course v k paths =
      (visitFiles host rule course.config v paths,
        (visitFiles host rule course.config v paths).outcomes.foldl
          (Console.see t json course) k) := by
  induction paths generalizing v k with
  | nil => rfl
  | cons path paths ih =>
    rw [visitAloud]
    cases h : processFile host rule course.config v path with
    | mk result w =>
      cases result with
      | ok status =>
        rw [visitFiles_cons_of_ok h]
        simp only [ih]
        rfl
      | error e =>
        cases hc : course.config.onError with
        | abort =>
          rw [visitFiles_cons_of_abort hc h]
          rfl
        | keepGoing =>
          rw [visitFiles_cons_of_keepGoing hc h]
          simp only [ih]
          rfl

/-- A course with its report, or the error that kept it from starting or stopped it. -/
def reported : Except Error Course → Except Error (Course × Report)
  | .error e => .error e
  | .ok course => course.report.map fun report => (course, report)

/-- What has been printed when a course is over. -/
def consoleOf (t : Terminal) (json : Bool) (course : Except Error Course) : Console :=
  let notices := if json then [] else noticesOf course
  { printed := notices.length
    arrived := t.arriving notices
    told := progressOf t json course }

theorem Course.flatMap_noticesAbout (course : Course) (json : Bool) :
    course.run.outcomes.flatMap (course.noticesAbout json) =
      if json then [] else course.notices := by
  cases json with
  | true => simp [noticesAbout]
  | false => exact (List.filterMap_eq_flatMap_toList ..).symm

/-- The work is the course that the arguments ask for, and what has been printed is the account of
it. -/
theorem Arguments.work_eq (a : Arguments) (host : Host) (t : Terminal) (v : Volume) :
    a.work host t v =
      (reported (a.perform host v), volumeAfter v (a.perform host v),
        consoleOf t a.json (a.perform host v)) := by
  rw [work, perform]
  cases a.resolve host v with
  | error e => cases hjson : a.json <;> simp [reported, volumeAfter, consoleOf, noticesOf,
      progressOf, Terminal.arriving]
  | ok c =>
    let course : Course :=
      { config := c, root := c.rootPath host.home, paths := visitedPaths host c v
        run := migrate host .withOpacity c v }
    -- what is printed is the same for the course as it starts and as it ends
    have hnotices := course.flatMap_noticesAbout a.json
    simp only [visitAloud_eq, Console.foldl_see, Console.status_eq, Console.tell, Nat.zero_add,
      List.nil_append, Course.outcomeLines_congr _ course]
    show (match course.report with
      | .error e => _
      | .ok report => _) = (course.report.map _, course.run.volume, consoleOf t a.json (.ok course))
    rw [consoleOf, noticesOf, progressOf, Course.progressLines, ← hnotices]
    cases course.report with
    | error e =>
      rw [List.append_nil]
      rfl
    | ok report => rfl

/-- With JSON the envelope is the first text. -/
theorem closeWith_consoleOf (t : Terminal) (course : Except Error Course) (envelope : Json)
    (code : Int) :
    (consoleOf t true course).closeWith t envelope code =
      { exitCode := clampExit code
        stdout := unlines (t.arriving [envelope.pretty])
        stderr := unlines (progressOf t true course ++
          ((t.refusal? 0).map Error.lines).getD []) } := by
  rw [Console.closeWith, Console.write_eq]
  show (match (t.refusal? 0, _) with
    | (none, k) => Console.close k code
    | (some e, k) => (k.tell e.lines).close code) = _
  cases t.refusal? 0 with
  | none => simp [Console.close, consoleOf, Terminal.arriving, Terminal.arrivingFrom]
  | some e =>
    simp [Console.close, Console.tell, consoleOf, Terminal.arriving, Terminal.arrivingFrom]

theorem endWithEnvelope_consoleOf (t : Terminal) (course : Except Error Course) :
    (consoleOf t true course).endWithEnvelope t (reported course) =
      { exitCode := clampExit (exitCodeOf course)
        stdout := unlines (t.arriving [Envelope.line (resultOf course)])
        stderr := unlines (progressOf t true course ++
          ((t.refusal? 0).map Error.lines).getD []) } := by
  cases course with
  | error e => exact closeWith_consoleOf t _ _ _
  | ok course =>
    rw [reported, exitCodeOf, resultOf, Course.result]
    cases course.report with
    | error e => exact closeWith_consoleOf t _ _ _
    | ok report => exact closeWith_consoleOf t _ _ _

theorem endWithErrors_consoleOf (t : Terminal) (course : Except Error Course) :
    (consoleOf t false course).endWithErrors (reported course) =
      { exitCode := clampExit (exitCodeOf course)
        stdout := unlines (t.arriving (noticesOf course))
        stderr := unlines (progressOf t false course ++ endingLines course) } := by
  cases course with
  | error e => rfl
  | ok course =>
    rw [reported, exitCodeOf, resultOf, Course.result, endingLines]
    cases course.report with
    | error e => rfl
    | ok report =>
      simp only [Except.map, Console.endWithErrors, Envelope.exitCode]
      split
      · rw [List.append_nil]
        rfl
      · rfl

/-- The program that goes through the work text by text leaves the same as the one that keeps
course and printing apart. -/
theorem Arguments.session_eq_execute (a : Arguments) (host : Host) (t : Terminal) (v : Volume) :
    a.session host t v = (Command.run a).execute host t v := by
  rw [session, work_eq, Command.execute, output]
  cases a.json with
  | true => exact congrArg (·, _) (endWithEnvelope_consoleOf t _)
  | false => exact congrArg (·, _) (endWithErrors_consoleOf t _)

/-- Whichever form of output is asked for, and whether the texts arrive, are refused or stay unread,
the program leaves the same volume and the same exit code, although it prints while it works. -/
theorem execute_unaffected_by_printing (a : Arguments) (host : Host) (v : Volume)
    (t t' : Terminal) (json json' : Bool) :
    let one := (Command.run (a.withJson json)).execute host t v
    let other := (Command.run (a.withJson json')).execute host t' v
    one.2 = other.2 ∧ one.1.exitCode = other.1.exitCode ∧
      one = (a.withJson json).session host t v ∧ other = (a.withJson json').session host t' v := by
  refine ⟨rfl, ?_, ((a.withJson json).session_eq_execute host t v).symm,
    ((a.withJson json').session_eq_execute host t' v).symm⟩
  cases json <;> cases json' <;> rfl

end CallMigration
