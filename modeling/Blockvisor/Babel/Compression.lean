/-
The coders of the upload and download jobs (`babel::compression`). A coder is
fed with data and its output is consumed; `finalize` gives what is left.

`Lossless` is what the jobs rely on of a pair of coders: the encoder, driven
as `DestinationsReader` drives it, never fails, and the decoder, driven as
`download_chunk` drives it on any splitting of the encoder's output, gives
the input back. `Codecs` is the compression library with that law, and
`noCoder_lossless` proves it of the coder that does nothing.
-/
import Blockvisor.Lib.Extent

namespace Blockvisor

/-- A streaming coder: `feed`, `consume` and `finalize` may each fail. -/
structure Coder where
  State : Type
  new : State
  feed : State → Bytes → Except String State
  consume : State → Except String (Bytes × State)
  finalize : State → Except String Bytes

namespace Coder

/-- The coder fed with each piece in turn, its output consumed after each. -/
def feedAll (c : Coder) : c.State → List Bytes → Except String (List Bytes × c.State)
  | s, [] => .ok ([], s)
  | s, x :: xs => do
    let s ← c.feed s x
    let (out, s) ← c.consume s
    let (outs, s) ← c.feedAll s xs
    .ok (out :: outs, s)

/-- The last piece fed and the coder finalized. -/
def finish (c : Coder) (s : c.State) (x : Bytes) : Except String Bytes := do
  c.finalize (← c.feed s x)

theorem feedAll_cons {c : Coder} {s s' s'' : c.State} {x out : Bytes} {xs : List Bytes}
    (hfeed : c.feed s x = .ok s') (hconsume : c.consume s' = .ok (out, s'')) :
    c.feedAll s (x :: xs) = (c.feedAll s'' xs).map fun r => (out :: r.1, r.2) := by
  simp only [feedAll, hfeed, hconsume, bind, Except.bind]
  cases c.feedAll s'' xs <;> rfl

/-- A piece that is fed and consumed comes before what the pieces after it come to. -/
theorem feedAll_cons_bind {c : Coder} {s s' : c.State} {x out : Bytes} {xs : List Bytes}
    (h : (c.feed s x).bind c.consume = .ok (out, s')) :
    c.feedAll s (x :: xs) = (c.feedAll s' xs).map fun r => (out :: r.1, r.2) := by
  cases hfeed : c.feed s x with
  | error err =>
    rw [hfeed] at h
    cases h
  | ok fed =>
    rw [hfeed] at h
    exact feedAll_cons hfeed h

theorem feedAll_cons_ok {c : Coder} {s t : c.State} {x : Bytes} {xs outs : List Bytes}
    (h : c.feedAll s (x :: xs) = .ok (outs, t)) :
    ∃ out s' outs', (c.feed s x).bind c.consume = .ok (out, s') ∧ c.feedAll s' xs = .ok (outs', t) ∧
      outs = out :: outs' := by
  simp only [feedAll, bind, Except.bind] at h ⊢
  cases hfeed : c.feed s x with
  | error e => simp [hfeed] at h
  | ok s₁ =>
    cases hconsume : c.consume s₁ with
    | error e => simp [hfeed, hconsume] at h
    | ok r =>
      cases hrest : c.feedAll r.2 xs with
      | error e => simp [hfeed, hconsume, hrest] at h
      | ok r' =>
        simp only [hfeed, hconsume, hrest, Except.ok.injEq, Prod.mk.injEq] at h
        exact ⟨r.1, r.2, r'.1, hconsume, by rw [hrest, ← h.2], h.1.symm⟩

end Coder

/-- The encoder takes anything, and the decoder gives it back, however its output is split. -/
structure Lossless (enc dec : Coder) : Prop where
  encode : ∀ (xs : List Bytes) (x : Bytes), ∃ outs s last,
    enc.feedAll enc.new xs = .ok (outs, s) ∧ enc.finish s x = .ok last
  decode : ∀ {xs : List Bytes} {x : Bytes} {outs s last}, enc.feedAll enc.new xs = .ok (outs, s) →
    enc.finish s x = .ok last → ∀ pieces : List Bytes, pieces.flatten = outs.flatten ++ last →
      ∃ outs' s' last', dec.feedAll dec.new pieces = .ok (outs', s') ∧ dec.finalize s' = .ok last' ∧
        outs'.flatten ++ last' = xs.flatten ++ x
  nothing : dec.finalize dec.new = .ok []

/-- The coder that hands its data on: what is fed replaces what was not consumed. -/
def noCoder : Coder where
  State := Option Bytes
  new := none
  feed _ data := .ok (some data)
  consume data := .ok (data.getD [], none)
  finalize data := .ok (data.getD [])

theorem noCoder_feedAll (xs : List Bytes) : noCoder.feedAll noCoder.new xs = .ok (xs, noCoder.new) := by
  induction xs with
  | nil => rfl
  | cons x xs ih =>
    have hstep : noCoder.feedAll noCoder.new (x :: xs) =
        (noCoder.feedAll noCoder.new xs).map fun r => (x :: r.1, r.2) := Coder.feedAll_cons rfl rfl
    rw [hstep, ih]
    rfl

theorem noCoder_lossless : Lossless noCoder noCoder where
  encode xs x := ⟨xs, noCoder.new, x, noCoder_feedAll xs, rfl⟩
  decode := by
    intro xs x outs s last hxs hx pieces hp
    have hfeed := (noCoder_feedAll xs).symm.trans hxs
    cases hfeed
    cases hx
    exact ⟨pieces, noCoder.new, [], noCoder_feedAll pieces, rfl, by simpa using hp⟩
  nothing := rfl

/-- The compression library: an encoder for each level, and one decoder for all of them. -/
structure Codecs where
  zstdEncoder : Int → Coder
  zstdDecoder : Coder
  lossless : ∀ level, Lossless (zstdEncoder level) zstdDecoder

/-- A library that hands its data on. -/
def plainCodecs : Codecs := ⟨fun _ => noCoder, noCoder, fun _ => noCoder_lossless⟩

end Blockvisor
