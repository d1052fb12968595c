import BackupVolume.Device.Memory

/-! # What passes through devices

A source hands out a list of blocks and comes to its end; a sink is handed a list of blocks. Both
are told by the blocks alone, whatever the device is.
-/
namespace BackupVolume

namespace BlockSource
variable {σ : Type} [BlockSource σ]

/-- A source hands out these blocks and then nothing more. The source that is left is the last
one. -/
inductive Yields : σ → List RawBlock → σ → Prop
  | done {s t : σ} : read s = (t, .ok none) → Yields s [] t
  | block {s t u : σ} {raw : RawBlock} {raws : List RawBlock} :
    read s = (t, .ok (some raw)) → Yields t raws u → Yields s (raw :: raws) u

end BlockSource

namespace BlockSink
variable {κ : Type} [BlockSink κ]

def writeAll (k : κ) : List Bytes → κ × Except IoFault Unit
  | [] => (k, .ok ())
  | b :: bs =>
    match write k b with
    | (k, .ok ()) => writeAll k bs
    | (k, .error e) => (k, .error e)

/-- A sink that takes every block, whatever it was handed before. -/
def AcceptsAll (k : κ) : Prop := ∀ bs, (writeAll k bs).2 = .ok ()

theorem writeAll_append (k : κ) {bs : List Bytes} (h : (writeAll k bs).2 = .ok ())
    (cs : List Bytes) : writeAll k (bs ++ cs) = writeAll (writeAll k bs).1 cs := by
  induction bs generalizing k with
  | nil => rfl
  | cons b bs ih =>
    rw [List.cons_append, writeAll, writeAll]
    rw [writeAll] at h
    rcases hw : write k b with ⟨l, e | ⟨⟨⟩⟩⟩
    · simp [hw] at h
    · simp only [hw] at h ⊢
      exact ih l h

theorem AcceptsAll.write {k : κ} (h : AcceptsAll k) (bs : List Bytes) (b : Bytes) :
    BlockSink.write (writeAll k bs).1 b = ((writeAll k (bs ++ [b])).1, .ok ()) := by
  have hall := h (bs ++ [b])
  rw [writeAll_append k (h bs)] at hall ⊢
  rw [writeAll] at hall ⊢
  rcases hw : BlockSink.write (writeAll k bs).1 b with ⟨l, e | ⟨⟨⟩⟩⟩
  · simp [hw] at hall
  · rfl

end BlockSink

namespace MemoryVolume

def rawBlocks (cursor : Nat) : List Bytes → List RawBlock
  | [] => []
  | b :: bs => ⟨cursor, b⟩ :: rawBlocks (cursor + 1) bs

theorem map_bytes_rawBlocks (cursor : Nat) (bs : List Bytes) :
    (rawBlocks cursor bs).map RawBlock.bytes = bs := by
  induction bs generalizing cursor with
  | nil => rfl
  | cons b bs ih => rw [rawBlocks, List.map_cons, ih]

theorem yields_drop (v : MemoryVolume) (bs : List Bytes)
    (h : v.blocks.toList.drop v.cursor = bs) :
    BlockSource.Yields v (rawBlocks v.cursor bs) { v with cursor := v.cursor + bs.length } := by
  induction bs generalizing v with
  | nil =>
    have hn : v.blocks[v.cursor]? = none := by
      rw [List.drop_eq_nil_iff] at h
      exact Array.getElem?_eq_none (by simpa using h)
    exact .done (by simp [BlockSource.read, MemoryVolume.read, hn])
  | cons b bs ih =>
    have hb : v.blocks[v.cursor]? = some b := by
      rw [← Array.getElem?_toList, ← List.head?_drop, h, List.head?_cons]
    have hrest : v.blocks.toList.drop (v.cursor + 1) = bs := by
      rw [← List.drop_drop, h, List.drop_one, List.tail_cons]
    have hnext := ih { v with cursor := v.cursor + 1 } hrest
    refine .block (t := { v with cursor := v.cursor + 1 }) ?_ ?_
    · simp [BlockSource.read, MemoryVolume.read, hb]
    · simpa [Nat.add_assoc, Nat.add_comm 1] using hnext

theorem yields_ofBlocks (name : String) (bs : List Bytes) :
    BlockSource.Yields (ofBlocks name bs) (rawBlocks 0 bs)
      { ofBlocks name bs with cursor := bs.length } := by
  simpa [ofBlocks] using yields_drop (ofBlocks name bs) bs (by simp [ofBlocks])

theorem writeAll_eq {v : MemoryVolume} (h : v.canWrite = true) (bs : List Bytes) :
    BlockSink.writeAll v bs = ({ v with blocks := v.blocks ++ bs }, .ok ()) := by
  induction bs generalizing v with
  | nil => simp [BlockSink.writeAll]
  | cons b bs ih =>
    have hw : BlockSink.write v b = ({ v with blocks := v.blocks.push b }, .ok ()) := by
      simp [BlockSink.write, MemoryVolume.write, h]
    rw [BlockSink.writeAll, hw]
    simp only
    rw [ih (by simpa [canWrite] using h)]
    simp

theorem acceptsAll {v : MemoryVolume} (h : v.canWrite = true) : BlockSink.AcceptsAll v := by
  intro bs
  rw [writeAll_eq h]

end MemoryVolume
end BackupVolume
