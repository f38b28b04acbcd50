import Pintos.Lib.FormatCursor
import Pintos.Machinery.Stores

/-!
# Lib/Sinks — what becomes of the characters

`vsnprintf` stores the characters that fit into a buffer and counts them all; `vhprintf` of the user
library collects them in a buffer of 64 bytes, and writes it when it is full and at the end. Both
counters are an `int`. With 2³¹ characters they wrap around, and `vsnprintf` takes up storing again,
behind the buffer.
-/

namespace Pintos.Printf

open Machinery Text List

/-- `struct vsnprintf_aux`, and the memory that `p` points to. -/
structure VsnprintfAux where
  mem : Memory 32
  p : BitVec 32
  length : ℤ
  maxLength : ℤ

/-- `vsnprintf_helper`. -/
def vsnprintfHelper (ch : UInt8) (aux : VsnprintfAux) : VsnprintfAux :=
  if aux.length < aux.maxLength then
    { aux with length := toInt (aux.length + 1), mem := aux.mem.store aux.p ch, p := aux.p + 1 }
  else { aux with length := toInt (aux.length + 1) }

/-- `vsnprintf`: the length, and the memory. -/
def vsnprintf (e : Env) (mem : Memory 32) (buffer : BitVec 32) (bufSize : ℕ) (format : List UInt8) :
    Except Stop (ℤ × Memory 32) := do
  let aux ← vprintf vsnprintfHelper e format
    { mem := mem, p := buffer, length := 0, maxLength := if 0 < bufSize then toInt (bufSize - 1 : ℕ) else 0 }
  return (aux.length, if 0 < bufSize then aux.mem.store aux.p 0 else aux.mem)

/-- `struct vhprintf_aux`: the part of `buf` before `p`; and what has been written to the handle. -/
structure VhprintfAux where
  buf : List UInt8
  written : List (List UInt8)
  charCnt : ℤ

/-- `flush` writes what is in the buffer. -/
def flush (aux : VhprintfAux) : VhprintfAux :=
  if aux.buf ≠ [] then { aux with written := aux.written ++ [aux.buf], buf := [] } else { aux with buf := [] }

/-- `add_char`, where a byte outside of `buf` has not been written before. -/
def addChar (c : UInt8) (aux : Except Stop VhprintfAux) : Except Stop VhprintfAux := do
  let aux ← aux
  let buf ← push aux.buf c
  let aux := { aux with buf := buf }
  let aux := if 64 ≤ aux.buf.length then flush aux else aux
  return { aux with charCnt := toInt (aux.charCnt + 1) }

/-- `vhprintf`: the count, and the buffers that are written one after the other. -/
def vhprintf (e : Env) (format : List UInt8) : Except Stop (ℤ × List (List UInt8)) := do
  let aux ← vprintf addChar e format (.ok { buf := [], written := [], charCnt := 0 })
  let aux ← aux
  let aux := flush aux
  return (aux.charCnt, aux.written)

/-! ## Character by character -/

lemma toInt_eq {n : ℤ} (h : IsInt n) : toInt n = n := Int.bmod_eq_of_le (by have := h.1; omega) (by have := h.2; omega)

lemma toInt_succ (l : List UInt8) (ch : UInt8) : toInt (toInt l.length + 1) = toInt (l ++ [ch]).length := by
  rw [toInt, toInt, Int.bmod_add_bmod, length_append, length_singleton]
  rfl

lemma outputAll_concat {σ : Type} (output : UInt8 → σ → σ) (l : List UInt8) (ch : UInt8) (aux : σ) :
    outputAll output (l ++ [ch]) aux = output ch (outputAll output l aux) := outputAll_append ..

lemma storeAll_concat (mem : Memory 32) (buffer : BitVec 32) (l : List UInt8) (ch : UInt8) :
    mem.storeAll buffer 0 (l ++ [ch]) =
      (mem.storeAll buffer 0 l).store (buffer + BitVec.ofNat 32 l.length) ch := by
  rw [Memory.storeAll_append, Nat.zero_add]
  rfl

/-- As long as the counter counts, the characters that fit are stored. -/
lemma outputAll_vsnprintfHelper (max : ℕ) (mem : Memory 32) (buffer : BitVec 32)
    {l : List UInt8} (hl : l.length ≤ 2 ^ 31) :
    outputAll vsnprintfHelper l { mem := mem, p := buffer, length := 0, maxLength := max } =
      { mem := mem.storeAll buffer 0 (l.take max), p := buffer + BitVec.ofNat 32 (l.take max).length,
        length := toInt l.length, maxLength := max } := by
  induction l using List.reverseRecOn with
  | nil => simp [outputAll, Memory.storeAll, toInt]
  | append_singleton l ch ih =>
    rw [length_append, length_singleton] at hl
    have hint : toInt l.length = l.length := toInt_eq ⟨by omega, by omega⟩
    have hsucc := toInt_succ l ch
    have ih' := ih (by omega)
    rw [outputAll_concat, ih', vsnprintfHelper, ← hsucc]
    dsimp only
    split
    · next hlt =>
      have hle : l.length ≤ max := by omega
      have hfits : (l ++ [ch]).length ≤ max := by
        rw [length_append, length_singleton]
        omega
      rw [take_of_length_le hle, take_of_length_le hfits, storeAll_concat, length_append,
        BitVec.ofNat_add, ← BitVec.add_assoc]
      rfl
    · next hge =>
      have hle : max ≤ l.length := by omega
      rw [take_append_of_le_length hle]

/-- What has become of the characters `l`: they are written, or in the buffer. -/
structure Written (l buf : List UInt8) (written : List (List UInt8)) : Prop where
  all : written.flatten ++ buf = l
  chunks : ∀ chunk ∈ written, 1 ≤ chunk.length ∧ chunk.length ≤ 64

lemma Written.flush {l : List UInt8} (aux : VhprintfAux) (h : Written l aux.buf aux.written)
    (hroom : aux.buf.length ≤ 64) :
    Written l [] (flush aux).written ∧ (flush aux).buf = [] ∧ (flush aux).charCnt = aux.charCnt := by
  rw [Printf.flush]
  split
  · next hne =>
    refine ⟨⟨?_, fun chunk hchunk => ?_⟩, rfl, rfl⟩
    · rw [flatten_concat, append_nil]
      exact h.all
    · obtain hchunk | hchunk := mem_append.mp hchunk
      · exact h.chunks chunk hchunk
      · rw [mem_singleton.mp hchunk]
        exact ⟨length_pos_iff.mpr hne, hroom⟩
  · next hempty =>
    have hbuf : aux.buf = [] := not_not.mp hempty
    exact ⟨⟨hbuf ▸ h.all, h.chunks⟩, rfl, rfl⟩

/-- There is always room in the buffer for the character that comes. -/
lemma written_outputAll (l : List UInt8) : ∃ aux,
    outputAll addChar l (.ok { buf := [], written := [], charCnt := 0 }) = .ok aux ∧
      Written l aux.buf aux.written ∧ aux.buf.length < 64 ∧ aux.charCnt = toInt l.length := by
  induction l using List.reverseRecOn with
  | nil => exact ⟨_, rfl, ⟨rfl, fun chunk h => absurd h not_mem_nil⟩, by decide, rfl⟩
  | append_singleton l ch ih =>
    obtain ⟨aux, heq, hwritten, hroom, hcount⟩ := ih
    have hpushed : Written (l ++ [ch]) (aux.buf ++ [ch]) aux.written :=
      ⟨by rw [← hwritten.all, append_assoc], hwritten.chunks⟩
    have hlen : (aux.buf ++ [ch]).length ≤ 64 := by
      rwa [length_append]
    rw [outputAll_concat, heq, addChar, ok_bind, push_of_lt hroom, ok_bind]
    dsimp only
    split
    · obtain ⟨hflushed, hbuf, hcount'⟩ := Written.flush { aux with buf := aux.buf ++ [ch] } hpushed hlen
      refine ⟨_, rfl, ?_, ?_, ?_⟩
      · rwa [hbuf]
      · rw [hbuf]
        decide
      · rw [hcount', hcount, toInt_succ]
    · next hfull =>
      refine ⟨_, rfl, hpushed, Nat.lt_of_not_le hfull, ?_⟩
      rw [hcount, toInt_succ]

/-! ## Agreement -/

/-- The sinks agree on `out`: `vsnprintf` stores what fits, and `vhprintf` writes all in chunks of 1
to 64 bytes. -/
structure SinksAgree (e : Env) (format out : List UInt8) (mem : Memory 32) (buffer : BitVec 32) (n : ℕ) : Prop where
  stored : vsnprintf e mem buffer n format =
    .ok (out.length, mem.storeAll buffer 0 (out.take (n - 1) ++ [0]))
  inside : mem.Within (mem.storeAll buffer 0 (out.take (n - 1) ++ [0])) buffer n
  written : ∃ chunks, vhprintf e format = .ok (out.length, chunks) ∧ chunks.flatten = out ∧
    ∀ chunk ∈ chunks, 1 ≤ chunk.length ∧ chunk.length ≤ 64

section

variable {e : Env} {format out : List UInt8}
  (hout : ∀ (σ : Type) output (aux : σ), vprintf output e format aux = .ok (outputAll output out aux))

include hout

lemma vhprintf_eq : ∃ chunks, vhprintf e format = .ok (toInt out.length, chunks) ∧ Written out [] chunks := by
  obtain ⟨aux, heq, hwritten, hroom, hcount⟩ := written_outputAll out
  obtain ⟨hflushed, -, hcount'⟩ := hwritten.flush aux hroom.le
  refine ⟨(flush aux).written, ?_, hflushed⟩
  rw [vhprintf, hout, heq, ← hcount, ← hcount']
  rfl

lemma vsnprintf_eq (hlen : out.length ≤ 2 ^ 31) {n : ℕ} (h0 : 0 < n) (h1 : n ≤ 2 ^ 31) (mem : Memory 32)
    (buffer : BitVec 32) : vsnprintf e mem buffer n format =
      .ok (toInt out.length, mem.storeAll buffer 0 (out.take (n - 1) ++ [0])) := by
  have hmax : toInt (n - 1 : ℕ) = (n - 1 : ℕ) := toInt_eq ⟨by omega, by omega⟩
  rw [vsnprintf, if_pos h0, hmax, hout, ok_bind, outputAll_vsnprintfHelper (n - 1) mem buffer hlen,
    storeAll_concat]
  dsimp only
  rw [if_pos h0]
  rfl

lemma sinksAgree_iff {n : ℕ} (h0 : 0 < n) (h1 : n ≤ 2 ^ 31) (mem : Memory 32) (buffer : BitVec 32) :
    SinksAgree e format out mem buffer n ↔ out.length < 2 ^ 31 := by
  obtain ⟨chunks, hchunks, hwritten⟩ := vhprintf_eq hout
  constructor
  · intro h
    obtain ⟨chunks', hchunks', -⟩ := h.written
    rw [hchunks] at hchunks'
    have hint : IsInt (out.length : ℤ) := by
      rw [← (Prod.mk.inj (Except.ok.inj hchunks')).1]
      exact isInt_toInt _
    have hlt := hint.2
    omega
  · intro hlen
    have hint : toInt out.length = out.length := toInt_eq ⟨by omega, by omega⟩
    refine ⟨?_, ?_, chunks, ?_, ?_, hwritten.chunks⟩
    · rw [vsnprintf_eq hout hlen.le h0 h1, hint]
    · refine (Memory.within_storeAll mem buffer ?_).mono ?_
      · rw [length_append, length_take, length_singleton]
        omega
      · rw [length_append, length_take, length_singleton]
        omega
    · rw [hchunks, hint]
    · rw [← hwritten.all, append_nil]

end

/-- **All sinks agree on the output of `__vprintf`**, as long as an `int` can count it. -/
theorem sinks_agree_iff (e : Env) (format : CString) (mem : Memory 32) (buffer : BitVec 32) {n : ℕ}
    (h0 : 1 ≤ n) (h1 : n ≤ 2 ^ 31 - 1) :
    (∃ out, vprintf (fun ch out => out ++ [ch]) e (format.bytes ++ [0]) [] = .ok out ∧
      (SinksAgree e (format.bytes ++ [0]) out mem buffer n ↔ out.length < 2 ^ 31)) ∨
    (¬ Whole format.bytes ∧ vsnprintf e mem buffer n (format.bytes ++ [0]) = .error .overrun ∧
      vhprintf e (format.bytes ++ [0]) = .error .overrun) := by
  obtain ⟨-, out, hout⟩ | ⟨hnot, hover⟩ := tells_vprintf e format
  · refine .inl ⟨out, ?_, sinksAgree_iff hout h0 (by omega) mem buffer⟩
    have hcollect := hout (List UInt8) (fun ch out => out ++ [ch]) []
    dsimp only at hcollect
    rw [hcollect, outputAll_collect, nil_append]
  · dsimp only at hover
    refine .inr ⟨hnot, ?_, ?_⟩
    · rw [vsnprintf, hover]
      rfl
    · rw [vhprintf, hover]
      rfl

def formatA : CString := ⟨[ascii 'a'], by decide⟩

theorem sinks_agree_iff_a : ∃ out, vprintf (fun ch out => out ++ [ch]) ⟨fun _ => 0, fun _ => 0⟩
    (formatA.bytes ++ [0]) [] = .ok out ∧
      (SinksAgree ⟨fun _ => 0, fun _ => 0⟩ (formatA.bytes ++ [0]) out ⟨fun _ => 0, []⟩ 0 2 ↔ out.length < 2 ^ 31) := by
  obtain h | ⟨hnot, -⟩ := sinks_agree_iff ⟨fun _ => 0, fun _ => 0⟩ formatA ⟨fun _ => 0, []⟩ 0 (n := 2)
    (by decide) (by decide)
  · exact h
  · exact absurd (.char (by decide) .nil) hnot

/-- The format `"%2147483647dx"`, with one character more than an `int` can count. -/
def longFormat : List UInt8 := "%2147483647dx".toList.map ascii ++ [0]

lemma puts_longFormat (e : Env) : ∃ out, out.length = 2 ^ 31 ∧
    ∀ (σ : Type) output (aux : σ), vprintf output e longFormat aux = .ok (outputAll output out aux) := by
  have hparse : parseConversion e ("2147483647dx".toList.map ascii ++ [0]) 0 =
      .ok ({ width := 2147483647 }, [ascii 'd', ascii 'x'] ++ [0], 0) := rfl
  obtain ⟨h0, h1⟩ := signedArg_bounds e .int 0
  have hlt := (absolute_eq h0 h1).1
  obtain ⟨text, hlen, htext⟩ : ∃ text, text.length = 2147483647 ∧
      Emits e (ascii 'd') { width := 2147483647 } 0 text := by
    refine ⟨_, ?_, emits_signed (by decide) _⟩
    have hpad : paddings { width := 2147483647 } = 1 := rfl
    have hcore := coreLength_le base_baseD hlt true (signedArg e .int 0 < 0) { width := 2147483647 }
    rw [length_integerText base_baseD hlt (by decide) (by decide), hpad]
    generalize coreLength _ _ _ _ _ = k at hcore ⊢
    dsimp only
    omega
  refine ⟨text ++ [ascii 'x'], ?_, fun σ output aux => ?_⟩
  · rw [length_append, hlen]
    norm_num
  · have hturns : longFormat.length = 13 + 1 := rfl
    have hstep := loopPrinter_conversion 13 (by decide) hparse output aux
    rw [headD_cons, htext] at hstep
    rwa [vprintf, outputAll_concat]

/-- The count wraps around, whatever the size of the buffer. -/
theorem sinks_disagree : ∃ out,
    vprintf (fun ch out => out ++ [ch]) ⟨fun _ => 0, fun _ => 0⟩ longFormat [] = .ok out ∧
      ∀ n, 1 ≤ n → n ≤ 2 ^ 31 - 1 →
        ¬ SinksAgree ⟨fun _ => 0, fun _ => 0⟩ longFormat out ⟨fun _ => 0, []⟩ 0 n := by
  obtain ⟨out, hlen, hout⟩ := puts_longFormat ⟨fun _ => 0, fun _ => 0⟩
  refine ⟨out, by rw [hout, outputAll_collect, nil_append], fun n h0 h1 h => ?_⟩
  have hlt := (sinksAgree_iff hout h0 (by omega) _ _).mp h
  omega

end Pintos.Printf
