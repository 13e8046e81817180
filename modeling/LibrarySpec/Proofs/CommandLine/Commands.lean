/-
  What a command line does to its directory, and what its exit code means.

  Three conditions on a directory and a command exclude each other, and each of them is an exit code:

    1. `Succeeds`, zero: the configuration and the specification are there, and every step works;
    2. `Fails`, one: all that is needed can be read, but the specification is not parsed or completed;
    3. `Lacks`, two: the configuration is no configuration, the specification cannot be read, or the
       file does not take the text that would be written.

  `Answered` ties them to what a command answers.  A command whose steps do not all succeed writes
  nothing and, but for a report that was asked for, puts nothing on the standard output.
-/
import LibrarySpec.CommandLine.Run
import LibrarySpec.Proofs.CommandLine.Directories

namespace LibrarySpec

/-! ## Files -/

namespace Directory

variable {directory : Directory} {file : String}

/-- A file has the text of a library. -/
def Specifies (directory : Directory) (file : String) (library : Library) : Prop :=
  ∃ text, directory.Holds file text ∧ Library.parse text = .ok library

/-- A file may be written. -/
def Takes (directory : Directory) (file : String) : Prop :=
  ∃ content readable, directory.resolve file = .ok (.file content readable true)

/-- A configuration file, if there is one, asks for a completion. -/
def Configures (directory : Directory) (config : Option String) (completion : Completion) : Prop :=
  match config with
  | none => completion = .plain
  | some file => ∃ text config, directory.Holds file text ∧ Config.parse? text = some config
      ∧ completion = config.toCompletion

theorem Configures.unique {config : Option String} {completion completion' : Completion}
    (h : directory.Configures config completion) (h' : directory.Configures config completion') :
    completion = completion' := by
  cases config with
  | none => exact Eq.trans h (Eq.symm h')
  | some file =>
    obtain ⟨text, c, holds, parsed, rfl⟩ := h
    obtain ⟨text', c', holds', parsed', rfl⟩ := h'
    rw [holds.unique holds', parsed'] at parsed
    rw [Option.some.inj parsed]

theorem accepts_eq_true_iff : directory.accepts file = true ↔ directory.Takes file := by
  constructor
  · exact accepts_eq_true
  · rintro ⟨content, readable, found⟩
    rw [accepts, found]

/-- The ways in which a file gives a text or none. -/
inductive Sourced (directory : Directory) (file : String) : Except Failure String → Prop where
  | text {text : String} (holds : directory.Holds file text) : Sourced directory file (.ok text)
  | unreadable {fault : ReadFault} (none : ∀ text, ¬directory.Holds file text) :
      Sourced directory file (.error (.unreadable file fault))

theorem sourced (directory : Directory) (file : String) :
    Sourced directory file (directory.source file) := by
  unfold source
  cases found : directory.read file with
  | ok text => exact .text (read_eq_ok_iff.1 found)
  | error fault =>
    refine .unreadable fun text holds => ?_
    rw [read_eq_ok_iff.2 holds] at found
    cases found

/-- The ways in which a file gives a library or none. -/
inductive Loaded (directory : Directory) (file : String) : Except Failure Library → Prop where
  | library {library : Library} (specifies : directory.Specifies file library) :
      Loaded directory file (.ok library)
  | faulty {text : String} {fault : Fault} (holds : directory.Holds file text)
      (failed : Library.parse text = .error fault) :
      Loaded directory file (.error (.faulty file fault))
  | unreadable {fault : ReadFault} (none : ∀ text, ¬directory.Holds file text) :
      Loaded directory file (.error (.unreadable file fault))

theorem loaded (directory : Directory) (file : String) :
    Loaded directory file (directory.library file) := by
  have sources := sourced directory file
  unfold library
  revert sources
  generalize directory.source file = source
  intro sources
  cases sources with
  | unreadable none => exact .unreadable none
  | @text text holds =>
    simp only [bind, Except.bind]
    cases parsed : Library.parse text with
    | ok library => exact .library ⟨text, holds, parsed⟩
    | error fault => exact .faulty holds parsed

/-- The ways in which a configuration gives a completion or none. -/
inductive Configured (directory : Directory) (config : Option String) :
    Except Failure Completion → Prop where
  | completion {completion : Completion} (configures : directory.Configures config completion) :
      Configured directory config (.ok completion)
  | refused {failure : Failure} (none : ∀ completion, ¬directory.Configures config completion)
      (code : failure.exitCode = 2) : Configured directory config (.error failure)

theorem configured (directory : Directory) (config : Option String) :
    Configured directory config (directory.completion config) := by
  cases config with
  | none => exact .completion rfl
  | some file =>
    have sources := sourced directory file
    simp only [completion, bind, Except.bind]
    revert sources
    generalize directory.source file = source
    intro sources
    cases sources with
    | unreadable none =>
      refine .refused (fun completion h => ?_) rfl
      obtain ⟨text, _, holds, _⟩ := h
      exact none text holds
    | @text text holds =>
      dsimp only
      cases parsed : Config.parse? text with
      | some config => exact .completion ⟨text, config, holds, parsed, rfl⟩
      | none =>
        refine .refused (fun completion h => ?_) rfl
        obtain ⟨text', config, holds', parsed', _⟩ := h
        rw [← holds.unique holds', parsed] at parsed'
        cases parsed'

end Directory

/-! ## Commands -/

namespace Command

/-- The specification that a command reads. -/
def file? : Command → Option String
  | check file _ | format file _ | complete file _ _ | hash file | includes file _ => some file
  | version => none

/-- The configuration that a command reads. -/
def config? : Command → Option String
  | complete _ config _ => config
  | _ => none

/-- Whether a command completes the specification. -/
def completes : Command → Bool
  | complete .. => true
  | _ => false

/-- Whether a command writes the specification back. -/
def writes : Command → Bool
  | format _ write => write
  | _ => false

/-- Every step of the command succeeds. -/
def Succeeds (directory : Directory) (command : Command) : Prop :=
  ∀ file, command.file? = some file → ∃ completion library,
    directory.Configures command.config? completion ∧ directory.Specifies file library
      ∧ (command.completes = true → ∃ completed, completion.run library = .ok completed)
      ∧ (command.writes = true → directory.Takes file)

/-- All that the command needs can be read, but the specification is not parsed or completed. -/
def Fails (directory : Directory) (command : Command) : Prop :=
  ∃ file completion text, command.file? = some file
    ∧ directory.Configures command.config? completion ∧ directory.Holds file text
    ∧ ((∃ fault, Library.parse text = .error fault)
      ∨ command.completes = true ∧ ∃ library fault, Library.parse text = .ok library
        ∧ completion.run library = .error fault)

/-- The configuration is none, the specification cannot be read, or it cannot be written back. -/
def Lacks (directory : Directory) (command : Command) : Prop :=
  ∃ file, command.file? = some file
    ∧ ((∀ completion, ¬directory.Configures command.config? completion)
      ∨ (∀ text, ¬directory.Holds file text)
      ∨ command.writes = true ∧ (∃ library, directory.Specifies file library)
        ∧ ¬directory.Takes file)

variable {directory : Directory} {command : Command}

theorem Succeeds.not_fails (h : Succeeds directory command) : ¬Fails directory command := by
  rintro ⟨file, completion, text, reads, configures, holds, fault⟩
  obtain ⟨completion', library, configures', ⟨text', holds', parsed⟩, completed, _⟩ := h file reads
  obtain rfl := configures.unique configures'
  obtain rfl := holds.unique holds'
  rcases fault with ⟨fault, failed⟩ | ⟨completes, library', fault, parsed', failed⟩
  · rw [parsed] at failed
    cases failed
  · rw [parsed] at parsed'
    cases parsed'
    obtain ⟨done, ran⟩ := completed completes
    rw [ran] at failed
    cases failed

theorem Succeeds.not_lacks (h : Succeeds directory command) : ¬Lacks directory command := by
  rintro ⟨file, reads, lack⟩
  obtain ⟨completion, library, configures, ⟨text, holds, _⟩, _, takes⟩ := h file reads
  rcases lack with refused | unreadable | ⟨writes, _, refused⟩
  · exact refused completion configures
  · exact unreadable text holds
  · exact refused (takes writes)

/-- A command that completes does not write. -/
theorem writes_of_completes (h : command.completes = true) : command.writes = false := by
  cases command <;> first | rfl | cases h

theorem Fails.not_lacks (h : Fails directory command) : ¬Lacks directory command := by
  obtain ⟨file, completion, text, reads, configures, holds, fault⟩ := h
  rintro ⟨file', reads', lack⟩
  rw [reads] at reads'
  cases reads'
  rcases lack with refused | unreadable | ⟨writes, ⟨library, text', holds', parsed⟩, _⟩
  · exact refused completion configures
  · exact unreadable text holds
  · obtain rfl := holds.unique holds'
    rcases fault with ⟨fault, failed⟩ | ⟨completes, _⟩
    · rw [parsed] at failed
      cases failed
    · rw [writes_of_completes completes] at writes
      cases writes

/-! ## Outcomes -/

/-- A command answers as its files are. -/
inductive Answered (directory : Directory) (command : Command) : Outcome → Prop where
  /-- Nothing is written, or the canonical text of the specification is written back. -/
  | success {outcome : Outcome} (succeeds : Succeeds directory command) (code : outcome.exitCode = 0)
      (written : outcome.written = none ∧ command.writes = false
        ∨ ∃ file library, command = .format file true ∧ directory.Takes file
          ∧ directory.Specifies file library ∧ outcome.written = some (file, library.print)) :
      Answered directory command outcome
  /-- Nothing is written, and only a report may be put out. -/
  | fault {outcome : Outcome} (fails : Fails directory command) (code : outcome.exitCode = 1)
      (written : outcome.written = none)
      (output : outcome.output = "" ∨ ∃ file, command = .check file true) :
      Answered directory command outcome
  /-- Nothing is written or put out. -/
  | lack {outcome : Outcome} (lacks : Lacks directory command) (code : outcome.exitCode = 2)
      (written : outcome.written = none) (output : outcome.output = "") :
      Answered directory command outcome

end Command

namespace Command

variable {quiet verbose : Bool}

/-- The outcome of a command, be it done or failed. -/
def outcome (result : Except Failure Outcome) : Outcome :=
  match result with
  | .ok outcome => outcome
  | .error failure => failure.outcome

/-- A command that only shows something of a specification. -/
theorem answered_show {file : String} (reads : command.file? = some file)
    (config : command.config? = none) (completes : command.completes = false)
    (writes : command.writes = false) (text : Library → String) :
    Answered directory command
      (outcome (do return .success (text (← directory.library file)))) := by
  have loads := directory.loaded file
  have plain : directory.Configures command.config? .plain := by rw [config]; rfl
  revert loads
  generalize directory.library file = library
  intro loads
  cases loads with
  | @library library specifies =>
    refine .success (fun file' reads' => ?_) rfl (.inl ⟨rfl, writes⟩)
    rw [reads] at reads'
    cases reads'
    exact ⟨.plain, library, plain, specifies, by simp [completes], by simp [writes]⟩
  | faulty holds failed =>
    exact .fault ⟨file, .plain, _, reads, plain, holds, .inl ⟨_, failed⟩⟩ rfl rfl (.inl rfl)
  | unreadable none => exact .lack ⟨file, reads, .inr (.inl none)⟩ rfl rfl rfl

theorem answered_check (file : String) (json : Bool) :
    Answered directory (.check file json) (outcome (runCheck directory quiet file json)) := by
  have sources := directory.sourced file
  unfold runCheck
  revert sources
  generalize directory.source file = source
  intro sources
  cases sources with
  | unreadable none => exact .lack ⟨file, rfl, .inr (.inl none)⟩ rfl rfl rfl
  | @text text holds =>
    simp only [bind, Except.bind]
    cases parsed : Library.parse text with
    | ok library =>
      refine .success (fun file' reads => ?_) rfl (.inl ⟨rfl, rfl⟩)
      cases reads
      exact ⟨.plain, library, rfl, ⟨text, holds, parsed⟩, nofun, nofun⟩
    | error fault =>
      have fails : Fails directory (.check file json) :=
        ⟨file, .plain, text, rfl, rfl, holds, .inl ⟨fault, parsed⟩⟩
      cases json with
      | true => exact .fault fails rfl rfl (.inr ⟨file, rfl⟩)
      | false => exact .fault fails rfl rfl (.inl rfl)

theorem answered_write (file : String) :
    Answered directory (.format file true) (outcome (runFormat directory quiet file true)) := by
  have loads := directory.loaded file
  unfold runFormat
  revert loads
  generalize directory.library file = library
  intro loads
  cases loads with
  | faulty holds failed =>
    exact .fault ⟨file, .plain, _, rfl, rfl, holds, .inl ⟨_, failed⟩⟩ rfl rfl (.inl rfl)
  | unreadable none => exact .lack ⟨file, rfl, .inr (.inl none)⟩ rfl rfl rfl
  | @library library specifies =>
    simp only [bind, Except.bind]
    cases accepted : directory.accepts file with
    | true =>
      have takes := Directory.accepts_eq_true_iff.1 accepted
      refine .success (fun file' reads => ?_) rfl
        (.inr ⟨file, library, rfl, takes, specifies, rfl⟩)
      cases reads
      exact ⟨.plain, library, rfl, specifies, nofun, fun _ => takes⟩
    | false =>
      have refused : ¬directory.Takes file := fun takes => by
        rw [Directory.accepts_eq_true_iff.2 takes] at accepted
        cases accepted
      exact .lack ⟨file, rfl, .inr (.inr ⟨rfl, ⟨library, specifies⟩, refused⟩)⟩ rfl rfl rfl

theorem answered_complete (file : String) (config : Option String) (json : Bool) :
    Answered directory (.complete file config json)
      (outcome (runComplete directory file config json)) := by
  have configures := directory.configured config
  have loads := directory.loaded file
  unfold runComplete
  revert configures loads
  generalize directory.completion config = completion
  generalize directory.library file = library
  intro configures loads
  cases configures with
  | refused none code =>
    exact .lack ⟨file, rfl, .inl none⟩ code rfl rfl
  | @completion completion configures =>
    cases loads with
    | faulty holds failed =>
      exact .fault ⟨file, completion, _, rfl, configures, holds, .inl ⟨_, failed⟩⟩ rfl rfl (.inl rfl)
    | unreadable none => exact .lack ⟨file, rfl, .inr (.inl none)⟩ rfl rfl rfl
    | @library library specifies =>
      simp only [bind, Except.bind]
      cases ran : completion.run library with
      | ok completed =>
        refine .success (fun file' reads => ?_) rfl (.inl ⟨rfl, rfl⟩)
        cases reads
        exact ⟨completion, library, configures, specifies, fun _ => ⟨completed, ran⟩, nofun⟩
      | error fault =>
        obtain ⟨text, holds, parsed⟩ := specifies
        exact .fault ⟨file, completion, text, rfl, configures, holds,
          .inr ⟨rfl, library, fault, parsed, ran⟩⟩ rfl rfl (.inl rfl)

theorem answered_run : Answered directory command (outcome (command.run directory quiet)) := by
  cases command with
  | check file json => exact answered_check file json
  | format file write =>
    cases write with
    | true => exact answered_write file
    | false => exact answered_show rfl rfl rfl rfl Library.print
  | complete file config json => exact answered_complete file config json
  | hash file => exact answered_show rfl rfl rfl rfl fun library => library.hash ++ "\n"
  | includes file target =>
    exact answered_show rfl rfl rfl rfl fun library =>
      String.join ((library.includePaths target).map (· ++ "\n"))
  | version => exact .success (fun _ reads => nomatch reads) rfl (.inl ⟨rfl, rfl⟩)

/-! ## Exit codes -/

namespace Answered

variable {outcome : Outcome}

theorem success_iff (h : Answered directory command outcome) :
    outcome.exitCode = 0 ↔ Succeeds directory command := by
  cases h with
  | success succeeds code => exact ⟨fun _ => succeeds, fun _ => code⟩
  | fault fails code => exact ⟨fun _ => by omega, fun succeeds => absurd fails succeeds.not_fails⟩
  | lack lacks code => exact ⟨fun _ => by omega, fun succeeds => absurd lacks succeeds.not_lacks⟩

theorem fault_iff (h : Answered directory command outcome) :
    outcome.exitCode = 1 ↔ Fails directory command := by
  cases h with
  | success succeeds code => exact ⟨fun _ => by omega, fun fails => absurd fails succeeds.not_fails⟩
  | fault fails code => exact ⟨fun _ => fails, fun _ => code⟩
  | lack lacks code => exact ⟨fun _ => by omega, fun fails => absurd lacks fails.not_lacks⟩

theorem lack_iff (h : Answered directory command outcome) :
    outcome.exitCode = 2 ↔ Lacks directory command := by
  cases h with
  | success succeeds code => exact ⟨fun _ => by omega, fun lacks => absurd lacks succeeds.not_lacks⟩
  | fault fails code => exact ⟨fun _ => by omega, fun lacks => absurd lacks fails.not_lacks⟩
  | lack lacks code => exact ⟨fun _ => lacks, fun _ => code⟩

theorem code_le (h : Answered directory command outcome) : outcome.exitCode ≤ 2 := by
  cases h with
  | success _ code | fault _ code | lack _ code => omega

open Classical in
/-- The exit code of a command that only needs the library of a file. -/
theorem code_of_reads {file : String} (h : Answered directory command outcome)
    (reads : command.file? = some file) (config : command.config? = none)
    (completes : command.completes = false) (takes : command.writes = true → directory.Takes file) :
    outcome.exitCode =
      if ∃ library, directory.Specifies file library then 0
      else if ∃ text, directory.Holds file text then 1 else 2 := by
  have plain : directory.Configures command.config? .plain := by rw [config]; rfl
  by_cases specified : ∃ library, directory.Specifies file library
  · rw [if_pos specified]
    refine h.success_iff.2 fun file' reads' => ?_
    obtain rfl := Option.some.inj (reads.symm.trans reads')
    obtain ⟨library, specifies⟩ := specified
    exact ⟨.plain, library, plain, specifies, by simp [completes], takes⟩
  rw [if_neg specified]
  by_cases held : ∃ text, directory.Holds file text
  · rw [if_pos held]
    obtain ⟨text, holds⟩ := held
    cases parsed : Library.parse text with
    | ok library => exact absurd ⟨library, text, holds, parsed⟩ specified
    | error fault =>
      exact h.fault_iff.2 ⟨file, .plain, text, reads, plain, holds, .inl ⟨fault, parsed⟩⟩
  · rw [if_neg held]
    exact h.lack_iff.2 ⟨file, reads, .inr (.inl fun text holds => held ⟨text, holds⟩)⟩

end Answered

end Command

/-! ## Command lines -/

/-- The command of a request; to show the version is one. -/
def Request.command : Request → Command
  | showVersion => .version
  | run _ _ command => command

theorem Request.answered (directory : Directory) (request : Request) :
    Command.Answered directory request.command (request.answer directory) := by
  cases request with
  | showVersion => exact .success (fun _ reads => nomatch reads) rfl (.inl ⟨rfl, rfl⟩)
  | run quiet verbose command => exact Command.answered_run

/-- A command shows something of a file, without completing it or writing to it. -/
def Command.Shows (file : String) : Command → Prop
  | check file' _ | format file' false | hash file' | includes file' _ => file' = file
  | _ => False

/-- What a command line does is what its directory and its request make it do. -/
structure Outcome.Lawful (directory : Directory) (request : Request) (outcome : Outcome) :
    Prop where
  success : outcome.exitCode = 0 ↔ request.command.Succeeds directory
  fault : outcome.exitCode = 1 ↔ request.command.Fails directory
  lack : outcome.exitCode = 2 ↔ request.command.Lacks directory
  /-- There is no other exit code. -/
  code : outcome.exitCode ≤ 2
  /-- Without a configuration nothing is completed, whatever the specification holds. -/
  refused : ∀ file config json, request.command = .complete file config json →
    (∀ completion, ¬directory.Configures config completion) → outcome.exitCode = 2
  /-- Commands that show something of one file have one exit code, and so has a command that writes
      to it if the file may be written. -/
  same : ∀ file, request.command.Shows file → ∀ other : Request,
    other.command.Shows file ∨ other.command = .format file true ∧ directory.Takes file →
    (other.answer directory).exitCode = outcome.exitCode
  /-- Only `fmt --write` changes a file. -/
  unchanged : (∀ file, request.command ≠ .format file true) → outcome.applyTo directory = directory
  /-- A command that fails changes nothing, and puts nothing out unless a report was asked for. -/
  failed : outcome.exitCode ≠ 0 → outcome.applyTo directory = directory
    ∧ (outcome.output = "" ∨ ∃ file, request.command = .check file true)
  /-- `fmt --write` rewrites its file with the text of the library that the file holds. -/
  formatted : ∀ file, request.command = .format file true → outcome.exitCode = 0 →
    ∃ library, directory.Specifies file library
      ∧ directory.Rewritten (outcome.applyTo directory) file library.print

theorem Command.Shows.reads {file : String} {command : Command} (h : command.Shows file) :
    command.file? = some file ∧ command.config? = none ∧ command.completes = false
      ∧ command.writes = false := by
  cases command with
  | format file' write =>
    cases write with
    | true => cases h
    | false =>
      cases h
      exact ⟨rfl, rfl, rfl, rfl⟩
  | complete | version => cases h
  | check | hash | includes =>
    cases h
    exact ⟨rfl, rfl, rfl, rfl⟩

open Classical in
/-- The exit code of a command that shows something of a file, or writes to a file that may be
    written. -/
theorem Request.code_of_shows {directory : Directory} {file : String} {request : Request}
    (h : request.command.Shows file
      ∨ request.command = .format file true ∧ directory.Takes file) :
    (request.answer directory).exitCode =
      if ∃ library, directory.Specifies file library then 0
      else if ∃ text, directory.Holds file text then 1 else 2 := by
  have answered := request.answered directory
  rcases h with shows | ⟨writes, takes⟩
  · obtain ⟨reads, config, completes, writes⟩ := shows.reads
    exact answered.code_of_reads reads config completes (by simp [writes])
  · rw [writes] at answered
    exact answered.code_of_reads rfl rfl rfl fun _ => takes

/-- Without a text to write the directory stays as it is. -/
theorem Outcome.applyTo_of_none {outcome : Outcome} (directory : Directory)
    (h : outcome.written = none) : outcome.applyTo directory = directory := by
  rw [applyTo, h]

theorem Request.lawful (directory : Directory) (request : Request) :
    Outcome.Lawful directory request (request.answer directory) where
  success := (request.answered directory).success_iff
  fault := (request.answered directory).fault_iff
  lack := (request.answered directory).lack_iff
  code := (request.answered directory).code_le
  refused file config json asked none := by
    refine (request.answered directory).lack_iff.2 ?_
    rw [asked]
    exact ⟨file, rfl, .inl none⟩
  same file shows other others := (code_of_shows others).trans (code_of_shows (.inl shows)).symm
  unchanged harmless := by
    cases request.answered directory with
    | success succeeds code written =>
      rcases written with ⟨nothing, _⟩ | ⟨file, _, writes, _⟩
      · exact Outcome.applyTo_of_none directory nothing
      · exact absurd writes (harmless file)
    | fault _ _ nothing | lack _ _ nothing => exact Outcome.applyTo_of_none directory nothing
  failed nonzero := by
    cases request.answered directory with
    | success _ code => exact absurd code nonzero
    | fault _ _ nothing output => exact ⟨Outcome.applyTo_of_none directory nothing, output⟩
    | lack _ _ nothing output => exact ⟨Outcome.applyTo_of_none directory nothing, .inl output⟩
  formatted file asked zero := by
    cases request.answered directory with
    | success _ _ written =>
      rcases written with ⟨_, harmless⟩ | ⟨file', library, writes, takes, specifies, written⟩
      · rw [asked] at harmless
        cases harmless
      · rw [asked] at writes
        cases writes
        refine ⟨library, specifies, ?_⟩
        rw [Outcome.applyTo, written]
        exact Directory.rewritten_write library.print (Directory.accepts_eq_true_iff.2 takes)
    | fault _ code | lack _ code => omega

/-- A command line that asks for something does what its directory and its request make it do. -/
theorem runCommandLine_lawful (directory : Directory) (arguments : List String) {request : Request}
    (h : Request.parse? arguments = some request) :
    Outcome.Lawful directory request (runCommandLine directory arguments) := by
  have answer : runCommandLine directory arguments = request.answer directory := by
    rw [runCommandLine, h]
  rw [answer]
  exact request.lawful directory

/-- A directory with one specification. -/
def clockDirectory : Directory :=
  ⟨[("clock.lsl", .file "library Clock ;types \x7b\x7d".toUTF8.toList true true)]⟩

/-- Formatting the specification in place. -/
theorem runCommandLine_lawful_clock :
    Request.parse? ["fmt", "-q", "clock.lsl", "--write"]
        = some (.run true false (.format "clock.lsl" true))
      ∧ Outcome.Lawful clockDirectory (.run true false (.format "clock.lsl" true))
        (runCommandLine clockDirectory ["fmt", "-q", "clock.lsl", "--write"])
      ∧ (runCommandLine clockDirectory ["fmt", "-q", "clock.lsl", "--write"]).exitCode = 0 := by
  have asked : Request.parse? ["fmt", "-q", "clock.lsl", "--write"]
      = some (.run true false (.format "clock.lsl" true)) := by decide +kernel
  exact ⟨asked, runCommandLine_lawful clockDirectory _ asked, by decide +kernel⟩

end LibrarySpec
