import HackAssembler.Output.MemorySink
import HackAssembler.Proofs.Interruption
import Mathlib

/-! # What a sink is given

A sink is given the words of a source one after the other, each with a newline behind it, and is
finished when both readings have succeeded. Which words these are depends on the source alone. What
holds of every result of a delivery, in any monad, is said by `SatisfiesM`, which only the whole of
Mathlib brings along. -/
namespace HackAssembler

namespace Output

open Assembly

/-- A call on a sink. The one that finishes it comes with what the sink kept until then, and with
what came of it. -/
inductive Call
  | write (text : String)
  | finish (kept : String) (outcome : Except FileFault Unit)

structure Recorded (σ : Type) where
  sink : σ
  calls : List Call

namespace Recorded

def start {σ : Type} (sink : σ) : Recorded σ := ⟨sink, []⟩

instance {m : Type → Type} [Monad m] {σ : Type} [Sink m σ] : Sink m (Recorded σ) where
  contents recorded := (Sink.toBuffer m).contents recorded.sink
  write text recorded := do
    let sink ← Sink.write text recorded.sink
    return ⟨sink, recorded.calls ++ [.write text]⟩
  finish recorded := do
    let (outcome, sink) ← Sink.finish recorded.sink
    return (outcome, ⟨sink, recorded.calls ++
      [.finish ((Sink.toBuffer m).contents recorded.sink) outcome]⟩)

end Recorded

def lineTexts (lines : List String) : List String :=
  lines.flatMap fun line => [line, "\n"]

theorem join_lineTexts (lines : List String) :
    String.join (lineTexts lines) = String.join (lines.map (· ++ "\n")) := by
  induction lines with
  | nil => rfl
  | cons line lines ih =>
    rw [lineTexts, List.flatMap_cons, String.join_append, ← lineTexts, ih, List.map_cons]
    simp [String.append_assoc]

section Sinks
variable (m : Type → Type) [Monad m] (σ : Type) [Sink m σ]

def Appends : Prop :=
  ∀ (text : String) (sink : σ),
    SatisfiesM (fun after => (Sink.toBuffer m).contents after =
      (Sink.toBuffer m).contents sink ++ text) (Sink.write text sink : m σ)

def FinishKeeps : Prop :=
  ∀ sink : σ, SatisfiesM (fun result => (Sink.toBuffer m).contents result.2 =
    (Sink.toBuffer m).contents sink) (Sink.finish sink : m (Except FileFault Unit × σ))

end Sinks

/-! ### The calls that are made -/

/-- From `before` to `after` exactly these texts have been written. -/
structure Wrote (m : Type → Type) [Monad m] {σ : Type} [Sink m σ] (before : Recorded σ)
    (texts : List String) (after : Recorded σ) : Prop where
  calls : after.calls = before.calls ++ texts.map .write
  contents : Appends m σ → (Sink.toBuffer m).contents after.sink =
    (Sink.toBuffer m).contents before.sink ++ String.join texts

section Wrote
variable {m : Type → Type} [Monad m] {σ : Type} [Sink m σ]

theorem Wrote.nil (recorded : Recorded σ) : Wrote m recorded [] recorded :=
  ⟨by simp, fun _ => by simp⟩

theorem Wrote.trans {first second third : Recorded σ} {texts more : List String}
    (h : Wrote m first texts second) (hmore : Wrote m second more third) :
    Wrote m first (texts ++ more) third where
  calls := by rw [hmore.calls, h.calls, List.map_append, List.append_assoc]
  contents happends := by
    rw [hmore.contents happends, h.contents happends, String.join_append, String.append_assoc]

end Wrote

section Recording
variable {m : Type → Type} [Monad m] [LawfulMonad m] {σ : Type} [Sink m σ]

theorem sink_writeLine (line : String) (recorded : Recorded σ) :
    Recorded.sink <$> (writeLine line recorded : m (Recorded σ)) =
      writeLine line recorded.sink := by
  simp [writeLine, Sink.write]

theorem sink_foldlM_writeLine (words : List Word) (recorded : Recorded σ) :
    Recorded.sink <$> (words.foldlM (fun sink word => writeLine word.text sink) recorded :
        m (Recorded σ)) =
      words.foldlM (fun sink word => writeLine word.text sink) recorded.sink := by
  induction words generalizing recorded with
  | nil => simp
  | cons word words ih =>
    rw [List.foldlM_cons, List.foldlM_cons, map_bind, ← sink_writeLine, bind_map_left]
    exact bind_congr ih

/-- Recording the calls changes nothing else. -/
theorem sink_deliver (emission : Emission) (recorded : Recorded σ) :
    (fun result => (result.1, result.2.sink)) <$>
        (deliver emission recorded : m (Except Error SymbolTable × Recorded σ)) =
      deliver emission recorded.sink := by
  rw [deliver, deliver, ← Array.foldlM_toList, ← Array.foldlM_toList, map_bind,
    ← sink_foldlM_writeLine, bind_map_left]
  refine bind_congr fun after => ?_
  cases emission.outcome with
  | error error => simp
  | ok table =>
    simp only [Sink.finish, map_bind, bind_assoc, pure_bind]
    refine bind_congr fun result => ?_
    rcases result with ⟨fault | done, sink⟩ <;> simp

theorem satisfiesM_write (text : String) (recorded : Recorded σ) :
    SatisfiesM (m := m) (Wrote m recorded [text]) (Sink.write text recorded) := by
  by_cases happends : Appends m σ
  · refine (happends text recorded.sink).bind fun sink hsink => .pure ⟨rfl, fun _ => ?_⟩
    simpa using hsink
  · exact SatisfiesM.bind .trivial fun sink _ => .pure ⟨rfl, fun h => absurd h happends⟩

theorem satisfiesM_writeLine (line : String) (recorded : Recorded σ) :
    SatisfiesM (m := m) (Wrote m recorded [line, "\n"]) (writeLine line recorded) :=
  (satisfiesM_write line recorded).bind fun first hfirst =>
    (satisfiesM_write "\n" first).imp hfirst.trans

theorem satisfiesM_words (words : List Word) (recorded : Recorded σ) :
    SatisfiesM (m := m) (Wrote m recorded (lineTexts (words.map Word.text)))
      (words.foldlM (fun sink word => writeLine word.text sink) recorded) := by
  induction words generalizing recorded with
  | nil => exact .pure (.nil recorded)
  | cons word words ih =>
    rw [List.foldlM_cons]
    exact (satisfiesM_writeLine word.text recorded).bind fun next hnext =>
      (ih next).imp hnext.trans

/-- Finishing is one more call, whatever comes of it. -/
theorem satisfiesM_finish (recorded : Recorded σ) :
    SatisfiesM (m := m) (fun result =>
        result.2.calls = recorded.calls ++
            [.finish ((Sink.toBuffer m).contents recorded.sink) result.1] ∧
          (FinishKeeps m σ → (Sink.toBuffer m).contents result.2.sink =
            (Sink.toBuffer m).contents recorded.sink)) (Sink.finish recorded) := by
  by_cases hkeeps : FinishKeeps m σ
  · exact (hkeeps recorded.sink).bind fun result hresult => .pure ⟨rfl, fun _ => hresult⟩
  · exact SatisfiesM.bind .trivial fun result _ => .pure ⟨rfl, fun h => absurd h hkeeps⟩

theorem satisfiesM_deliver_error (words : Array Word) (error : Error) (sink : σ) :
    SatisfiesM (m := m) (fun result => result.1 = .error error ∧
        Wrote m (.start sink) (lineTexts (words.toList.map Word.text)) result.2)
      (deliver ⟨words, .error error⟩ (.start sink)) := by
  rw [deliver, ← Array.foldlM_toList]
  exact (satisfiesM_words words.toList (.start sink)).bind fun after hafter =>
    .pure ⟨rfl, hafter⟩

theorem satisfiesM_deliver_ok (words : Array Word) (final : SymbolTable) (sink : σ) :
    SatisfiesM (m := m) (fun result : Except Error SymbolTable × Recorded σ =>
        ∃ (before : Recorded σ) (outcome : Except FileFault Unit),
        Wrote m (.start sink) (lineTexts (words.toList.map Word.text)) before ∧
          result.2.calls = before.calls ++
            [.finish ((Sink.toBuffer m).contents before.sink) outcome] ∧
          (FinishKeeps m σ → (Sink.toBuffer m).contents result.2.sink =
            (Sink.toBuffer m).contents before.sink) ∧
          (outcome = .ok () ∧ result.1 = .ok final ∨
            ∃ fault, outcome = .error fault ∧ result.1 = .error (.sink fault)))
      (deliver ⟨words, .ok final⟩ (.start sink)) := by
  rw [deliver, ← Array.foldlM_toList]
  refine (satisfiesM_words words.toList (.start sink)).bind fun before hbefore => ?_
  refine (satisfiesM_finish before).bind fun result hresult => ?_
  obtain ⟨hcalls, hkeeps⟩ := hresult
  rcases result with ⟨fault | done, after⟩
  · exact .pure ⟨before, _, hbefore, hcalls, hkeeps, .inr ⟨fault, rfl, rfl⟩⟩
  · exact .pure ⟨before, _, hbefore, hcalls, hkeeps, .inl ⟨rfl, rfl⟩⟩

/-- A delivery fails with the error of the emission, or with what its sink was refused for. -/
theorem satisfiesM_deliver_errors (emission : Emission) (sink : σ) :
    SatisfiesM (m := m) (fun result : Except Error SymbolTable × σ =>
        ∀ error, result.1 = .error error →
          emission.outcome = .error error ∨ ∃ fault, error = .sink fault)
      (deliver emission sink) := by
  rw [deliver]
  refine SatisfiesM.bind .trivial fun after _ => ?_
  cases emission.outcome with
  | error error => exact .pure fun _ herror => .inl herror
  | ok final =>
    refine SatisfiesM.bind .trivial fun result _ => ?_
    rcases result with ⟨fault | done, after⟩
    · exact .pure fun _ herror => .inr ⟨fault, (Except.error.inj herror).symm⟩
    · exact .pure nofun

end Recording

end Output

namespace Assembly

open Source Instruction Output

def sent (code : String) : List String :=
  (Emission.ofSource code).words.toList.map Word.text

/-- Which words these are: none if the first reading fails, and those in front of the error if the
second one does. -/
structure Sends (code : String) (words : List String) : Prop where
  bits : ∀ word ∈ words, word.length = 16 ∧ ∀ c ∈ word.toList, c = '0' ∨ c = '1'
  first : ∀ error, bindLabels SymbolTable.initial 0 (Line.ofSource code) = .error error → words = []
  second : ∀ table error, bindLabels SymbolTable.initial 0 (Line.ofSource code) = .ok table →
    (emit table.restartVariables #[] (Line.ofSource code)).outcome = .error error →
    ∃ tokens, (Lexer.ofString code).tokens = .ok tokens ∧
      Interrupted (lexemeLines tokens) error words
  whole : ∀ output, assemble code = .ok output → output = String.join (lineTexts words)

/-- The last call of a delivery and its result: a sink is finished when both readings succeed, and
what comes of that is the result. -/
inductive Ends (code : String) : List Call → Except Error SymbolTable → Prop
  | first {error : Error}
      (hfirst : bindLabels SymbolTable.initial 0 (Line.ofSource code) = .error error)
      (hsink : ∀ fault, error ≠ .sink fault) : Ends code [] (.error error)
  | second {table : SymbolTable} {error : Error}
      (hfirst : bindLabels SymbolTable.initial 0 (Line.ofSource code) = .ok table)
      (hsecond : (emit table.restartVariables #[] (Line.ofSource code)).outcome = .error error)
      (hsink : ∀ fault, error ≠ .sink fault) : Ends code [] (.error error)
  | finished {table final : SymbolTable} {output kept : String}
      (hfirst : bindLabels SymbolTable.initial 0 (Line.ofSource code) = .ok table)
      (hsecond : (emit table.restartVariables #[] (Line.ofSource code)).outcome = .ok final)
      (hassemble : assemble code = .ok output) :
      Ends code [.finish kept (.ok ())] (.ok final)
  | refused {table final : SymbolTable} {kept : String} {fault : FileFault}
      (hfirst : bindLabels SymbolTable.initial 0 (Line.ofSource code) = .ok table)
      (hsecond : (emit table.restartVariables #[] (Line.ofSource code)).outcome = .ok final) :
      Ends code [.finish kept (.error fault)] (.error (.sink fault))

structure Delivered (m : Type → Type) [Monad m] {σ : Type} [Sink m σ] (code : String) (sink : σ)
    (result : Except Error SymbolTable × Recorded σ) (last : List Call) : Prop where
  calls : result.2.calls = (lineTexts (sent code)).map .write ++ last
  ends : Ends code last result.1
  /-- The sink holds the whole output when it is finished. -/
  finished : Appends m σ → ∀ kept outcome, Call.finish kept outcome ∈ last →
    kept = (Sink.toBuffer m).contents sink ++ String.join (lineTexts (sent code))
  contents : Appends m σ → last = [] ∨ FinishKeeps m σ →
    (Sink.toBuffer m).contents result.2.sink =
      (Sink.toBuffer m).contents sink ++ String.join (lineTexts (sent code))

section Sent
variable {code : String}

theorem sends_sent : Sends code (sent code) where
  bits := by
    rw [sent, List.forall_mem_map]
    exact fun word _ => ⟨Word.length_text _, fun c => Word.mem_text⟩
  first error herror := by simp [sent, Emission.ofSource, herror]
  second table error htable herror := by
    obtain ⟨program, hbound⟩ := exists_bound htable
    simpa only [sent, Emission.ofSource, htable] using hbound.interrupted herror
  whole output houtput := by
    cases houtcome : (Emission.ofSource code).outcome with
    | error error =>
      simp only [assemble, houtcome, Except.map] at houtput
      cases houtput
    | ok final =>
      simp only [assemble, houtcome, Except.map] at houtput
      rw [← Except.ok.inj houtput, binary_eq_join, join_lineTexts, sent, List.map_map]
      rfl

variable {m : Type → Type} [Monad m] [LawfulMonad m] {σ : Type} [Sink m σ]

theorem satisfiesM_delivered_of_error {error : Error}
    (houtcome : (Emission.ofSource code).outcome = .error error)
    (hends : Ends code [] (.error error)) (sink : σ) :
    SatisfiesM (m := m) (fun result => ∃ last, Delivered m code sink result last)
      (deliver (Emission.ofSource code) (.start sink)) := by
  have hsource : Emission.ofSource code = ⟨(Emission.ofSource code).words, .error error⟩ := by
    rw [← houtcome]
  rw [hsource]
  refine (satisfiesM_deliver_error _ error sink).imp fun {result} hresult => ⟨[], ?_⟩
  obtain ⟨hresult, hwrote⟩ := hresult
  refine ⟨?_, hresult ▸ hends, fun _ _ _ h => absurd h List.not_mem_nil,
    fun happends _ => hwrote.contents happends⟩
  rw [hwrote.calls, List.append_nil]
  rfl

theorem satisfiesM_delivered_of_ok {final : SymbolTable}
    (houtcome : (Emission.ofSource code).outcome = .ok final)
    (hfinished : ∀ kept, Ends code [.finish kept (.ok ())] (.ok final))
    (hrefused : ∀ kept fault, Ends code [.finish kept (.error fault)] (.error (.sink fault)))
    (sink : σ) :
    SatisfiesM (m := m) (fun result => ∃ last, Delivered m code sink result last)
      (deliver (Emission.ofSource code) (.start sink)) := by
  have hsource : Emission.ofSource code = ⟨(Emission.ofSource code).words, .ok final⟩ := by
    rw [← houtcome]
  rw [hsource]
  refine (satisfiesM_deliver_ok _ final sink).imp fun {result} hresult => ?_
  obtain ⟨before, outcome, hwrote, hcalls, hkeeps, houtcome⟩ := hresult
  refine ⟨[.finish ((Sink.toBuffer m).contents before.sink) outcome], ?_, ?_, ?_, ?_⟩
  · rw [hcalls, hwrote.calls]
    rfl
  · rcases houtcome with ⟨rfl, hresult⟩ | ⟨fault, rfl, hresult⟩
    · exact hresult ▸ hfinished _
    · exact hresult ▸ hrefused _ fault
  · intro happends kept _ hlast
    cases List.mem_singleton.mp hlast
    exact hwrote.contents happends
  · rintro happends (hlast | hfinish)
    · cases hlast
    · rw [hkeeps hfinish]
      exact hwrote.contents happends

end Sent

/-- Delivering a source to a sink. Recording the calls makes no difference to what is done, and
shows that they are the words of the source, each with a newline behind it, and then at most one
call to finish the sink. -/
theorem deliver_calls (code : String) :
    Sends code (sent code) ∧
    ∀ (m : Type → Type) [Monad m] [LawfulMonad m] (σ : Type) [Sink m σ] (sink : σ),
      (fun result => (result.1, result.2.sink)) <$>
          (deliver (Emission.ofSource code) (.start sink) :
            m (Except Error SymbolTable × Recorded σ)) =
        deliver (Emission.ofSource code) sink ∧
      SatisfiesM (m := m) (fun result => ∃ last, Delivered m code sink result last)
        (deliver (Emission.ofSource code) (.start sink)) := by
  refine ⟨sends_sent, fun m _ _ σ _ sink => ⟨sink_deliver _ _, ?_⟩⟩
  cases hfirst : bindLabels SymbolTable.initial 0 (Line.ofSource code) with
  | error error =>
    exact satisfiesM_delivered_of_error (by simp only [Emission.ofSource, hfirst])
      (.first hfirst (ne_sink_of_bindLabels hfirst)) sink
  | ok table =>
    obtain ⟨program, hbound⟩ := exists_bound hfirst
    cases hsecond : (emit table.restartVariables #[] (Line.ofSource code)).outcome with
    | error error =>
      obtain ⟨line, _, hlate⟩ := lateError_of_emit hbound.outlined hsecond
      exact satisfiesM_delivered_of_error (by simp only [Emission.ofSource, hfirst, hsecond])
        (.second hfirst hsecond hlate.at_places.ne_sink) sink
    | ok final =>
      have houtcome : (Emission.ofSource code).outcome = .ok final := by
        simp only [Emission.ofSource, hfirst, hsecond]
      have hassemble : assemble code = .ok (binary (Emission.ofSource code).words) := by
        simp only [assemble, houtcome, Except.map]
      exact satisfiesM_delivered_of_ok houtcome (fun _ => .finished hfirst hsecond hassemble)
        (fun _ _ => .refused hfirst hsecond) sink

/-- A word is sent before the text behind its instruction is found to be too much. -/
theorem deliver_calls_memorySink :
    (Appends Id MemorySink ∧ FinishKeeps Id MemorySink) ∧
      sent "@1\nD=M D" = ["0000000000000001", "1111110000010000"] ∧
      Sends "@1\nD=M D" (sent "@1\nD=M D") ∧
      SatisfiesM (m := Id)
        (fun result => ∃ last, Delivered Id "@1\nD=M D" MemorySink.empty result last)
        (deliver (Emission.ofSource "@1\nD=M D") (.start MemorySink.empty)) :=
  ⟨⟨fun _ _ => .pure rfl, fun _ => .pure rfl⟩, by decide +kernel, (deliver_calls "@1\nD=M D").1,
    ((deliver_calls "@1\nD=M D").2 Id MemorySink _).2⟩

end Assembly

end HackAssembler
