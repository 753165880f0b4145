import HackAssembler.Output.MemorySink
import HackAssembler.Proofs.Transcripts
import Mathlib.Data.List.Induction

/-! # What file sinks leave behind

A file sink keeps what it is given as a sink in memory does, and touches its file only to finish. It
writes until one write has succeeded, and from then on leaves the file alone. -/
namespace HackAssembler

/-- Files that can be looked at. A write that succeeds leaves its text at its path, and a write that
fails leaves there what was there. -/
class Disk (W : Type) extends FileAccess (StateM W) where
  content (world : W) (path : String) : Option Entry
  content_of_ok {world after : W} {path text : String}
    (h : (writeText path text).run world = (.ok (), after)) :
    content after path = some (.file text.toUTF8)
  content_of_error {world after : W} {path text : String} {fault : FileFault}
    (h : (writeText path text).run world = (.error fault, after)) :
    content after path = content world path

def Disk.write {W : Type} [Disk W] (world : W) (path text : String) : Except FileFault Unit × W :=
  (FileAccess.writeText path text : StateM W (Except FileFault Unit)).run world

namespace CommandLine

/-- The files of a session, by the places that the paths lead to. -/
instance {F : Type} [FileSystem F] : Disk (Session F) where
  toFileAccess := inferInstance
  content session path :=
    (FileSystem.place session.store path).toOption.bind (FileSystem.lookup session.store)
  content_of_ok {session after path text} h := by
    rw [run_writeText] at h
    split at h
    · next files hwrite =>
      cases h
      obtain ⟨target, hplace, hlookup, -⟩ := FileSystem.lookup_write hwrite
      have hafter := (FileSystem.place_write hwrite path target).mpr hplace
      simp only [hafter, Except.toOption, Option.bind_some, hlookup]
    · cases h
  content_of_error {session after path text fault} h := by
    rw [run_writeText] at h
    split at h
    · cases h
    · cases h
      rfl

end CommandLine

namespace Output

inductive Request
  | write (text : String)
  | line (text : String)
  | finish
  deriving DecidableEq

def Request.text : Request → String
  | write text => text
  | line text => text ++ "\n"
  | finish => ""

def emitted (history : List Request) : String :=
  String.join (history.map Request.text)

theorem emitted_concat (history : List Request) (request : Request) :
    emitted (history ++ [request]) = emitted history ++ request.text := by
  simp [emitted, String.join_append]

section Requests
variable {m : Type → Type} [Monad m] {σ : Type} [Sink m σ]

/-- Makes a request, with what comes of it if it is to finish. -/
def perform (sink : σ) : Request → m (Option (Except FileFault Unit) × σ)
  | .write text => return (none, ← Sink.write text sink)
  | .line text => return (none, ← writeLine text sink)
  | .finish => do
    let (outcome, sink) ← Sink.finish sink
    return (some outcome, sink)

def performAll (sink : σ) (history : List Request) : m (List (Except FileFault Unit) × σ) :=
  history.foldlM (fun (outcomes, sink) request => do
    let (outcome, sink) ← perform sink request
    return (outcomes ++ outcome.toList, sink)) ([], sink)

theorem performAll_concat [LawfulMonad m] (sink : σ) (history : List Request) (request : Request) :
    (performAll sink (history ++ [request]) : m _) = do
      let (outcomes, sink) ← performAll sink history
      let (outcome, sink) ← perform sink request
      return (outcomes ++ outcome.toList, sink) := by
  simp [performAll, List.foldlM_append]

end Requests

/-- A sink in memory keeps everything that is emitted, and is always finished. -/
theorem performAll_memorySink {m : Type → Type} [Monad m] [LawfulMonad m] (history : List Request) :
    (performAll MemorySink.empty history : m _) =
      pure (List.replicate (history.count .finish) (.ok ()), ⟨emitted history⟩) := by
  induction history using List.reverseRecOn with
  | nil => rfl
  | append_singleton history request ih =>
    rw [performAll_concat, ih, pure_bind]
    cases request <;>
      simp [perform, writeLine, Sink.write, Sink.finish, emitted_concat, Request.text,
        String.append_assoc, List.replicate_succ']

/-! ### A file sink and its file -/

/-- How things stand after requests to a file sink: what has come of those that were to finish, the
sink, and the world that its file is in. -/
structure Situation (W : Type) where
  outcomes : List (Except FileFault Unit)
  sink : FileSink
  world : W

section Situation
variable {W : Type} [Disk W]

def situation (path : String) (world : W) (history : List Request) : Situation W :=
  let ((outcomes, sink), after) :=
    (performAll (FileSink.ofPath path) history : StateM W _).run world
  ⟨outcomes, sink, after⟩

def Situation.ask (before : Situation W) (request : Request) : Situation W :=
  let ((outcome, sink), after) := (perform before.sink request : StateM W _).run before.world
  ⟨before.outcomes ++ outcome.toList, sink, after⟩

theorem situation_concat (path : String) (world : W) (history : List Request)
    (request : Request) : situation path world (history ++ [request]) =
      (situation path world history).ask request := by
  rw [situation, performAll_concat]
  rfl

/-- What one more request does: until a finish has succeeded, each finish is one attempt to write
all that the sink keeps, and after that nothing is written. -/
inductive Next (target : String) (before : Situation W) : Request → Situation W → Prop
  | write (text : String) :
      Next target before (.write text)
        { before with sink := { before.sink with text := before.sink.text ++ text } }
  | line (text : String) :
      Next target before (.line text)
        { before with sink := { before.sink with text := before.sink.text ++ text ++ "\n" } }
  | written {after : W} (hfirst : .ok () ∉ before.outcomes)
      (hwrite : Disk.write before.world target before.sink.text = (.ok (), after))
      (hcontent : Disk.content after target = some (.file before.sink.text.toUTF8)) :
      Next target before .finish
        ⟨before.outcomes ++ [.ok ()], { before.sink with written := true }, after⟩
  | failed {fault : FileFault} {after : W} (hfirst : .ok () ∉ before.outcomes)
      (hwrite : Disk.write before.world target before.sink.text = (.error fault, after))
      (hcontent : Disk.content after target = Disk.content before.world target) :
      Next target before .finish ⟨before.outcomes ++ [.error fault], before.sink, after⟩
  | again (hwritten : .ok () ∈ before.outcomes) :
      Next target before .finish { before with outcomes := before.outcomes ++ [.ok ()] }

structure Situation.Consistent (target : String) (history : List Request)
    (situation : Situation W) : Prop where
  path : situation.sink.path = target
  text : situation.sink.text = emitted history
  written_iff : situation.sink.written = true ↔ .ok () ∈ situation.outcomes

section Step
variable {target : String} {history : List Request} {before after : Situation W}
  {request : Request}

theorem ask_write (before : Situation W) (text : String) : before.ask (.write text) =
    { before with sink := { before.sink with text := before.sink.text ++ text } } := by
  simp only [Situation.ask, perform, Sink.write, pure_bind, StateT.run_pure]
  exact congrArg (Situation.mk · _ _) (List.append_nil _)

theorem ask_line (before : Situation W) (text : String) : before.ask (.line text) =
    { before with sink := { before.sink with text := before.sink.text ++ text ++ "\n" } } := by
  simp only [Situation.ask, perform, writeLine, Sink.write, pure_bind, StateT.run_pure]
  exact congrArg (Situation.mk · _ _) (List.append_nil _)

theorem ask_finish_of_written {before : Situation W} (h : before.sink.written = true) :
    before.ask .finish = { before with outcomes := before.outcomes ++ [.ok ()] } := by
  simp only [Situation.ask, perform, Sink.finish, FileSink.finish, h, if_true, pure_bind,
    StateT.run_pure]
  rfl

theorem ask_finish_of_unwritten {before : Situation W} (h : before.sink.written = false) :
    before.ask .finish =
      match Disk.write before.world before.sink.path before.sink.text with
      | (.ok (), after) =>
        ⟨before.outcomes ++ [.ok ()], { before.sink with written := true }, after⟩
      | (.error fault, after) => ⟨before.outcomes ++ [.error fault], before.sink, after⟩ := by
  simp only [Situation.ask, perform, Sink.finish, FileSink.finish, h, Bool.false_eq_true, if_false,
    StateT.run_bind, Disk.write]
  rcases (FileAccess.writeText before.sink.path before.sink.text :
    StateM W (Except FileFault Unit)).run before.world with ⟨fault | done, after⟩ <;> rfl

theorem next_ask (hbefore : before.Consistent target history) (request : Request) :
    Next target before request (before.ask request) := by
  cases request with
  | write text =>
    rw [ask_write]
    exact .write text
  | line text =>
    rw [ask_line]
    exact .line text
  | finish =>
    by_cases hwritten : before.sink.written = true
    · rw [ask_finish_of_written hwritten]
      exact .again (hbefore.written_iff.mp hwritten)
    · have hfirst : .ok () ∉ before.outcomes := fun h => hwritten (hbefore.written_iff.mpr h)
      rw [ask_finish_of_unwritten (by simpa using hwritten), hbefore.path]
      cases hwrite : Disk.write before.world target before.sink.text with
      | mk outcome after =>
        cases outcome with
        | ok done => exact .written hfirst hwrite (Disk.content_of_ok hwrite)
        | error fault => exact .failed hfirst hwrite (Disk.content_of_error hwrite)

theorem Next.consistent (h : Next target before request after)
    (hbefore : before.Consistent target history) :
    after.Consistent target (history ++ [request]) := by
  have htext := hbefore.text
  have hwritten := hbefore.written_iff
  cases h with
  | write text =>
    refine ⟨hbefore.path, ?_, hwritten⟩
    rw [emitted_concat, ← htext]
    rfl
  | line text =>
    refine ⟨hbefore.path, ?_, hwritten⟩
    rw [emitted_concat, ← htext]
    exact String.append_assoc
  | written => exact ⟨hbefore.path, by simp [emitted_concat, htext, Request.text], by simp⟩
  | failed hfirst =>
    refine ⟨hbefore.path, by simp [emitted_concat, htext, Request.text], ?_⟩
    simp [hwritten]
  | again hagain =>
    refine ⟨hbefore.path, by simp [emitted_concat, htext, Request.text], ?_⟩
    simp [hwritten, hagain]

theorem Next.world_eq (h : Next target before request after)
    (hwritten : .ok () ∈ before.outcomes) : after.world = before.world := by
  cases h with
  | write | line | again => rfl
  | written hfirst | failed hfirst => exact absurd hwritten hfirst

theorem Next.of_unwritten (h : Next target before request after)
    (hafter : .ok () ∉ after.outcomes) : .ok () ∉ before.outcomes ∧
      Disk.content after.world target = Disk.content before.world target := by
  cases h with
  | write | line => exact ⟨hafter, rfl⟩
  | written => simp at hafter
  | failed hfirst _ hcontent => exact ⟨hfirst, hcontent⟩
  | again hwritten => simp [hwritten] at hafter

theorem Next.of_first (h : Next target before request after) (hbefore : .ok () ∉ before.outcomes)
    (hafter : .ok () ∈ after.outcomes) :
    request = .finish ∧ after.outcomes = before.outcomes ++ [.ok ()] ∧
      Disk.content after.world target = some (.file before.sink.text.toUTF8) := by
  cases h with
  | write | line => exact absurd hafter hbefore
  | written _ _ hcontent => exact ⟨rfl, rfl, hcontent⟩
  | failed => simp [hbefore] at hafter
  | again hwritten => exact absurd hwritten hbefore

end Step

theorem consistent_situation (path : String) (world : W) (history : List Request) :
    (situation path world history).Consistent (Path.withExtension "hack" path) history := by
  induction history using List.reverseRecOn with
  | nil => exact ⟨rfl, rfl, iff_of_false Bool.false_ne_true List.not_mem_nil⟩
  | append_singleton history request ih =>
    rw [situation_concat]
    exact (next_ask ih request).consistent ih

theorem next_situation (path : String) (world : W) (history : List Request) (request : Request) :
    Next (Path.withExtension "hack" path) (situation path world history) request
      (situation path world (history ++ [request])) := by
  rw [situation_concat]
  exact next_ask (consistent_situation path world history) request

variable {path : String} {world : W} {history : List Request}

theorem content_of_unwritten (h : .ok () ∉ (situation path world history).outcomes) :
    Disk.content (situation path world history).world (Path.withExtension "hack" path) =
      Disk.content world (Path.withExtension "hack" path) := by
  induction history using List.reverseRecOn with
  | nil => rfl
  | append_singleton history request ih =>
    obtain ⟨hbefore, hcontent⟩ := (next_situation path world history request).of_unwritten h
    rw [hcontent, ih hbefore]

/-- The first finish to succeed leaves in the file all that was emitted before it, and nothing after
it makes a difference to the world. -/
structure FirstFinish (path : String) (world : W) (history before : List Request) : Prop where
  unwritten : .ok () ∉ (situation path world before).outcomes
  outcomes : (situation path world (before ++ [.finish])).outcomes =
    (situation path world before).outcomes ++ [.ok ()]
  world_eq : (situation path world history).world =
    (situation path world (before ++ [.finish])).world
  content : Disk.content (situation path world history).world (Path.withExtension "hack" path) =
    some (.file (emitted before).toUTF8)

theorem exists_firstFinish (h : .ok () ∈ (situation path world history).outcomes) :
    ∃ before behind, history = before ++ .finish :: behind ∧
      FirstFinish path world history before := by
  induction history using List.reverseRecOn with
  | nil => exact absurd h List.not_mem_nil
  | append_singleton history request ih =>
    have hnext := next_situation path world history request
    -- The first finish to succeed is among the requests before the last one, or it is the last one.
    by_cases hbefore : .ok () ∈ (situation path world history).outcomes
    · obtain ⟨before, behind, rfl, hfirst⟩ := ih hbefore
      have hworld := hnext.world_eq hbefore
      exact ⟨before, behind ++ [request], by simp, hfirst.unwritten, hfirst.outcomes,
        hworld.trans hfirst.world_eq, hworld ▸ hfirst.content⟩
    · obtain ⟨rfl, houtcomes, hcontent⟩ := hnext.of_first hbefore h
      rw [(consistent_situation path world history).text] at hcontent
      exact ⟨history, [], rfl, hbefore, houtcomes, rfl, hcontent⟩

end Situation

/-- The laws of file sinks, whatever comes of the writes. The sink keeps all that was emitted, as
one in memory does. Each finish is one attempt to write it, until one succeeds; the file is as it
was at first until then, and stays as it is then. -/
theorem fileSink_laws {W : Type} [Disk W] (path : String) (world : W) (history : List Request) :
    (Sink.toBuffer (StateM W)).contents (situation path world history).sink = emitted history ∧
    (performAll MemorySink.empty history : StateM W _) =
      pure (List.replicate (history.count .finish) (.ok ()), ⟨emitted history⟩) ∧
    (∀ request, Next (Path.withExtension "hack" path) (situation path world history) request
      (situation path world (history ++ [request]))) ∧
    (.ok () ∉ (situation path world history).outcomes →
      Disk.content (situation path world history).world (Path.withExtension "hack" path) =
        Disk.content world (Path.withExtension "hack" path)) ∧
    (.ok () ∈ (situation path world history).outcomes →
      ∃ before behind, history = before ++ .finish :: behind ∧
        FirstFinish path world history before) :=
  ⟨(consistent_situation path world history).text, performAll_memorySink history,
    next_situation path world history, content_of_unwritten, exists_firstFinish⟩

/-- Files whose next writes fail as they are told to. -/
structure FaultyFiles where
  faults : List FileFault
  files : List (String × String)

instance : Disk FaultyFiles where
  readText path := do
    return ((← get).files.lookup path).elim (.error .notFound) .ok
  writeText path text world :=
    match world.faults with
    | [] => (.ok (), { world with files := (path, text) :: world.files })
    | fault :: faults => (.error fault, { world with faults })
  content world path := (world.files.lookup path).map fun text => .file text.toUTF8
  content_of_ok {world after path text} h := by
    simp only [StateT.run] at h
    split at h
    · cases h
      simp
    · cases h
  content_of_error {world after path text fault} h := by
    simp only [StateT.run] at h
    split at h
    · cases h
    · cases h
      rfl

/-- A finish that fails, one that succeeds, and one that has nothing left to do. -/
def retriedHistory : List Request :=
  [.write "0000000000000010", .finish, .write "\n", .finish, .line "1110110000010000", .finish]

/-- The second finish writes, and what is emitted behind it stays out of the file. -/
theorem fileSink_laws_retried :
    (situation "Max.asm" (FaultyFiles.mk [.isDirectory] []) retriedHistory).outcomes =
        [.error .isDirectory, .ok (), .ok ()] ∧
      emitted retriedHistory = "0000000000000010\n1110110000010000\n" ∧
      Disk.content
          (situation "Max.asm" (FaultyFiles.mk [.isDirectory] []) (retriedHistory.take 3)).world
          "Max.hack" = none ∧
      (∃ before behind, retriedHistory = before ++ .finish :: behind ∧
        FirstFinish "Max.asm" (FaultyFiles.mk [.isDirectory] []) retriedHistory before) ∧
      (situation "Max.asm" (FaultyFiles.mk [.isDirectory] []) retriedHistory).world.files =
        [("Max.hack", "0000000000000010\n")] := by
  have hfailed : .ok () ∉ (situation "Max.asm" (FaultyFiles.mk [.isDirectory] [])
      (retriedHistory.take 3)).outcomes := by
    decide +kernel
  have hretried : (situation "Max.asm" (FaultyFiles.mk [.isDirectory] [])
      retriedHistory).outcomes = [.error .isDirectory, .ok (), .ok ()] := by
    decide +kernel
  have hfiles : (situation "Max.asm" (FaultyFiles.mk [.isDirectory] [])
      retriedHistory).world.files = [("Max.hack", "0000000000000010\n")] := by
    decide +kernel
  have hnone := (fileSink_laws "Max.asm" (FaultyFiles.mk [.isDirectory] [])
    (retriedHistory.take 3)).2.2.2.1 hfailed
  have htarget : Path.withExtension "hack" "Max.asm" = "Max.hack" := by decide +kernel
  rw [htarget] at hnone
  exact ⟨hretried, by decide +kernel, hnone,
    (fileSink_laws _ _ retriedHistory).2.2.2.2 (by rw [hretried]; decide), hfiles⟩

end Output

end HackAssembler
