import BackupVolume.Device.File
import BackupVolume.Proofs.Device.Octets
import BackupVolume.Proofs.Device.Traffic

/-! # Blocks in files

A file gives back the blocks that were written to it, at the addresses where they were put. In a
packed file nothing but the length of a block tells where it ends, and in a file of places of one
size nothing at all: whatever else happens to the octets of the file, the blocks stay where they
are.
-/
namespace BackupVolume

namespace RawBlock

def layOut (start : Nat) : List Bytes → List RawBlock
  | [] => []
  | b :: bs => ⟨start, b⟩ :: layOut (start + b.length) bs

/-- The block that other data have in the same place. -/
def reread (data : Bytes) (raw : RawBlock) : RawBlock :=
  ⟨raw.address, data.slice raw.address raw.bytes.length⟩

theorem mem_layOut {raw : RawBlock} {start : Nat} {bs : List Bytes} (h : raw ∈ layOut start bs) :
    raw.bytes ∈ bs ∧ start ≤ raw.address ∧
      raw.address + raw.bytes.length ≤ start + bs.flatten.length := by
  induction bs generalizing start with
  | nil => cases h
  | cons b bs ih =>
    rw [List.flatten_cons, List.length_append]
    rcases List.mem_cons.mp h with rfl | h
    · exact ⟨List.mem_cons_self, Nat.le_refl _, Nat.add_le_add_left (Nat.le_add_right ..) _⟩
    · obtain ⟨hmem, hstart, hend⟩ := ih h
      exact ⟨List.mem_cons_of_mem b hmem, by omega, by omega⟩

theorem reread_self (before : Bytes) {bs : List Bytes} {raw : RawBlock}
    (h : raw ∈ layOut before.length bs) : raw.reread (before ++ bs.flatten) = raw := by
  induction bs generalizing before with
  | nil => cases h
  | cons b bs ih =>
    rw [List.flatten_cons]
    rcases List.mem_cons.mp h with rfl | h
    · rw [reread, Bytes.slice, List.drop_left, List.take_left]
    · rw [← List.append_assoc]
      exact ih (before ++ b) (by rwa [List.length_append])

section Cut
variable {data : Bytes} {start : Nat} {bs : List Bytes}

/-- Places that are back to back up to the end of the data divide the data. -/
theorem flatten_reread (h : data.length = start + bs.flatten.length) :
    ((layOut start bs).map fun raw => (raw.reread data).bytes).flatten = data.drop start := by
  induction bs generalizing start with
  | nil => exact (List.drop_eq_nil_of_le (Nat.le_of_eq h)).symm
  | cons b bs ih =>
    rw [List.flatten_cons, List.length_append, ← Nat.add_assoc] at h
    rw [layOut, List.map_cons, List.flatten_cons, ih h, ← List.drop_drop, reread, Bytes.slice,
      List.take_append_drop]

theorem length_reread {raw : RawBlock} (h : raw.address + raw.bytes.length ≤ data.length) :
    (raw.reread data).bytes.length = raw.bytes.length := Bytes.length_slice h

theorem layOut_reread (h : data.length = start + bs.flatten.length) :
    layOut start ((layOut start bs).map fun raw => (raw.reread data).bytes)
      = (layOut start bs).map (reread data) := by
  induction bs generalizing start with
  | nil => rfl
  | cons b bs ih =>
    rw [List.flatten_cons, List.length_append, ← Nat.add_assoc] at h
    have hlength : ((⟨start, b⟩ : RawBlock).reread data).bytes.length = b.length :=
      length_reread (by simp only; omega)
    rw [layOut, List.map_cons, layOut, hlength, ih h]
    rfl

end Cut
end RawBlock

namespace BlockMode

def Frames : BlockMode → Bytes → Prop
  | .packed, bytes => Bytes.toNat (bytes.slice 4 4) = bytes.length ∧
      minHeaderLength ≤ bytes.length ∧ bytes.length ≤ maxBlockLength
  | .fixed size, bytes => bytes ≠ [] ∧ bytes.length = size

/-- The blocks that can be found again: in a packed file those that tell their own length, in a file
of places of one size those that are not empty and fit. -/
def Takes : BlockMode → Bytes → Prop
  | .packed, block => Frames .packed block
  | .fixed size, block => block ≠ [] ∧ block.length ≤ size

instance (mode : BlockMode) (block : Bytes) : Decidable (mode.Takes block) :=
  match mode with
  | .packed => inferInstanceAs (Decidable (_ ∧ _ ∧ _))
  | .fixed _ => inferInstanceAs (Decidable (_ ∧ _))

def place : BlockMode → Bytes → Bytes
  | .packed, block => block
  | .fixed size, block => block ++ List.replicate (size - block.length) 0

/-- Any octets of a file can have changed, save those in a packed file that tell how long the blocks
are. -/
structure Overwritten (mode : BlockMode) (raws : List RawBlock) (file data : Bytes) : Prop where
  length_eq : data.length = file.length
  lengths : mode = .packed → ∀ raw ∈ raws,
    data.slice (raw.address + 4) 4 = file.slice (raw.address + 4) 4

variable {mode : BlockMode} {bytes block : Bytes}

theorem Takes.frames (h : mode.Takes block) : mode.Frames (mode.place block) := by
  cases mode with
  | packed => exact h
  | fixed size =>
    obtain ⟨hne, hle⟩ := h
    refine ⟨fun hnil => hne (List.append_eq_nil_iff.mp hnil).1, ?_⟩
    rw [place, List.length_append, List.length_replicate, Nat.add_sub_cancel' hle]

theorem Takes.stored (h : mode.Takes block) :
    FileSink.stored mode block = .ok (mode.place block) := by
  cases mode with
  | packed => rfl
  | fixed size => exact if_neg (Nat.not_lt.mpr h.2)

theorem Frames.ne_nil (h : mode.Frames bytes) : bytes ≠ [] := by
  cases mode with
  | packed => exact List.ne_nil_of_length_pos (Nat.lt_of_lt_of_le (by decide) h.2.1)
  | fixed size => exact h.1

/-- Octets of the same length that tell the same length make up a block as well. -/
theorem Frames.congr {other : Bytes} (h : mode.Frames bytes) (hlength : other.length = bytes.length)
    (hword : mode = .packed → other.slice 4 4 = bytes.slice 4 4) : mode.Frames other := by
  cases mode with
  | packed => rwa [Frames, hword rfl, hlength]
  | fixed size =>
    refine ⟨List.ne_nil_of_length_pos ?_, hlength.trans h.2⟩
    exact hlength ▸ List.length_pos_iff.mpr h.1

/-- What stands in the places of the blocks after they were overwritten are blocks again. -/
theorem Overwritten.frames {places : List Bytes} {data : Bytes}
    (h : mode.Overwritten (RawBlock.layOut 0 places) places.flatten data)
    (hplaces : ∀ bytes ∈ places, mode.Frames bytes) {raw : RawBlock}
    (hraw : raw ∈ RawBlock.layOut 0 places) : mode.Frames (raw.reread data).bytes := by
  obtain ⟨hmem, -, hend⟩ := RawBlock.mem_layOut hraw
  have hself : (raw.reread places.flatten).bytes = raw.bytes :=
    congrArg _ (RawBlock.reread_self [] hraw)
  have hframes := hplaces _ hmem
  refine hframes.congr (RawBlock.length_reread (by rw [h.length_eq]; omega)) fun hpacked => ?_
  have hlong : 4 + 4 ≤ raw.bytes.length := by
    subst hpacked
    exact Nat.le_trans (by decide) hframes.2.1
  calc (raw.reread data).bytes.slice 4 4
      = data.slice (raw.address + 4) 4 := Bytes.slice_slice data raw.address hlong
    _ = Bytes.slice places.flatten (raw.address + 4) 4 := h.lengths hpacked raw hraw
    _ = (raw.reread places.flatten).bytes.slice 4 4 :=
      (Bytes.slice_slice places.flatten raw.address hlong).symm
    _ = raw.bytes.slice 4 4 := by rw [hself]

end BlockMode

namespace FileSource
variable {ρ : Type} [OctetReader ρ]

theorem readPacked_of_frames (f : FileSource ρ) {bytes rest : Bytes} {r : ρ}
    (hframes : BlockMode.packed.Frames bytes)
    (h : OctetReader.Delivers r ((bytes ++ rest).drop minHeaderLength)) :
    ∃ s, f.readPacked (bytes.take minHeaderLength) r = (s, .ok bytes) ∧
      OctetReader.Delivers s rest := by
  obtain ⟨hword, hleast, hmost⟩ := hframes
  rw [List.drop_append_of_le_length hleast] at h
  obtain ⟨s, hfill, hrest⟩ := h.fill (bytes.length - minHeaderLength)
  have hmore : (bytes.drop minHeaderLength).length = bytes.length - minHeaderLength :=
    List.length_drop
  have hstart : (bytes.take minHeaderLength).length = minHeaderLength :=
    List.length_take_of_le hleast
  have hstartWord : Bytes.slice (bytes.take minHeaderLength) 4 4 = bytes.slice 4 4 :=
    Bytes.slice_slice bytes 0 (by decide)
  rw [← hmore, List.drop_left, List.length_append] at hrest
  refine ⟨s, ?_, hrest (Nat.le_add_right ..)⟩
  have hbounds : (decide (bytes.length < minHeaderLength) || decide (maxBlockLength < bytes.length))
      = false := by
    simp only [Bool.or_eq_false_iff, decide_eq_false_iff_not, Nat.not_lt]
    exact ⟨hleast, hmost⟩
  rw [← hmore, List.take_left, hmore] at hfill
  rw [readPacked, if_neg (by rw [hstart]; exact Nat.lt_irrefl _), hstartWord, hword]
  simp only [hbounds, Bool.false_eq_true, if_false, hfill, Except.map, List.take_append_drop]

/-- A block that comes next is read as it is, and reading goes on behind it. -/
theorem read_of_frames (f : FileSource ρ) {bytes rest : Bytes} (hframes : f.mode.Frames bytes)
    (h : OctetReader.Delivers f.reader (bytes ++ rest)) :
    ∃ reader, f.read = ({ f with reader, position := f.position + bytes.length },
        .ok (some ⟨f.position, bytes⟩)) ∧ OctetReader.Delivers reader rest := by
  obtain ⟨reader, hoctets, hrest⟩ :
      ∃ s, f.readOctets = (s, .ok bytes) ∧ OctetReader.Delivers s rest := by
    rw [readOctets]
    rcases hmode : f.mode with _ | size
    · rw [hmode] at hframes
      obtain ⟨s, hfill, hlater⟩ := h.fill minHeaderLength
      rw [List.take_append_of_le_length hframes.2.1] at hfill
      obtain ⟨t, hread, hrest⟩ := f.readPacked_of_frames hframes
        (hlater (Nat.le_trans hframes.2.1 (by rw [List.length_append]; omega)))
      refine ⟨t, ?_, hrest⟩
      rcases hstart : bytes.take minHeaderLength with _ | ⟨b, more⟩
      · have hnil := List.take_eq_nil_iff.mp hstart
        exact absurd (hnil.resolve_left (by decide)) hframes.ne_nil
      · simp only [hfill, hstart]
        rw [← hstart, hread]
    · rw [hmode] at hframes
      obtain ⟨s, hfill, hlater⟩ := h.fill size
      rw [← hframes.2, List.take_left, List.drop_left] at *
      exact ⟨s, hfill, hlater (by rw [List.length_append]; omega)⟩
  refine ⟨reader, ?_, hrest⟩
  rw [read, hoctets]
  rcases bytes with _ | ⟨b, bs⟩
  · exact absurd rfl hframes.ne_nil
  · rfl

theorem read_of_delivers_nil (f : FileSource ρ) (h : OctetReader.Delivers f.reader []) :
    ∃ reader, f.read = ({ f with reader }, .ok none) := by
  have hfill (n : Nat) : ∃ s, OctetReader.fill f.reader n = (s, .ok []) := by
    obtain ⟨s, hfill, -⟩ := h.fill n
    exact ⟨s, by rw [hfill, List.take_nil]⟩
  rcases hmode : f.mode with _ | size
  · obtain ⟨s, hs⟩ := hfill minHeaderLength
    exact ⟨s, by rw [read, readOctets, hmode, hs]⟩
  · obtain ⟨s, hs⟩ := hfill size
    exact ⟨s, by rw [read, readOctets, hmode]; simp only [hs]⟩

/-- Blocks back to back are read one after another. -/
theorem yields_of_frames (f : FileSource ρ) (pieces : List Bytes)
    (hframes : ∀ bytes ∈ pieces, f.mode.Frames bytes)
    (h : OctetReader.Delivers f.reader pieces.flatten) :
    ∃ g, BlockSource.Yields f (RawBlock.layOut f.position pieces) g := by
  induction pieces generalizing f with
  | nil =>
    obtain ⟨reader, hread⟩ := f.read_of_delivers_nil h
    exact ⟨_, .done hread⟩
  | cons bytes pieces ih =>
    obtain ⟨reader, hread, hrest⟩ := f.read_of_frames (hframes bytes List.mem_cons_self) h
    obtain ⟨g, hyields⟩ := ih { f with reader, position := f.position + bytes.length }
      (fun b hb => hframes b (List.mem_cons_of_mem bytes hb)) hrest
    exact ⟨g, .block hread hyields⟩

end FileSource

namespace FileSink

theorem writeAll_eq {f : FileSink} (hopen : f.isReleased = false) {blocks : List Bytes}
    (h : ∀ block ∈ blocks, f.mode.Takes block) :
    BlockSink.writeAll f blocks
      = ({ f with contents := f.contents ++ (blocks.map f.mode.place).flatten }, .ok ()) := by
  induction blocks generalizing f with
  | nil => simp [BlockSink.writeAll]
  | cons block blocks ih =>
    have hwrite : BlockSink.write f block
        = ({ f with contents := f.contents ++ f.mode.place block }, .ok ()) := by
      simp only [BlockSink.write, write, hopen, Bool.false_eq_true, if_false,
        (h block List.mem_cons_self).stored]
    rw [BlockSink.writeAll, hwrite]
    simp only
    rw [ih (f := { f with contents := f.contents ++ f.mode.place block }) hopen
      fun b hb => h b (List.mem_cons_of_mem block hb)]
    have hcontents : f.contents ++ f.mode.place block ++ (blocks.map f.mode.place).flatten
        = f.contents ++ ((block :: blocks).map f.mode.place).flatten := by
      apply Array.toList_inj.mp
      simp
    rw [hcontents]

end FileSink

/-- Blocks that were written to a file are read back in order from where they were put, whatever
portions the octets come in. Overwriting the file elsewhere than in the lengths of packed blocks
changes what stands in the places, but not where they are and how many. -/
theorem FileSource.yields_written {mode : BlockMode} {blocks : List Bytes}
    (h : ∀ block ∈ blocks, mode.Takes block) (name : String) (ρ : Type) [OctetReader ρ] :
    let file := (blocks.map mode.place).flatten
    let raws := RawBlock.layOut 0 (blocks.map mode.place)
    (∃ f : FileSink, BlockSink.writeAll ({ name, mode } : FileSink) blocks = (f, .ok ()) ∧
      f.contents.toList = file) ∧
    (∀ reader : ρ, OctetReader.Delivers reader file →
      ∃ s, BlockSource.Yields ({ reader, name, mode } : FileSource ρ) raws s) ∧
    (∀ raw ∈ raws, raw.reread file = raw) ∧
    ∀ data, mode.Overwritten raws file data →
      ∀ reader : ρ, OctetReader.Delivers reader data →
        ∃ s, BlockSource.Yields ({ reader, name, mode } : FileSource ρ)
          (raws.map (RawBlock.reread data)) s := by
  intro file raws
  have hframes : ∀ bytes ∈ blocks.map mode.place, mode.Frames bytes := by
    intro bytes hbytes
    obtain ⟨block, hblock, rfl⟩ := List.mem_map.mp hbytes
    exact (h block hblock).frames
  refine ⟨⟨_, FileSink.writeAll_eq rfl h, by simp [file]⟩, fun reader hreader => ?_,
    fun raw hraw => RawBlock.reread_self [] hraw, fun data hdata reader hreader => ?_⟩
  · exact yields_of_frames ⟨reader, name, mode, 0⟩ _ hframes hreader
  · have hlength : data.length = 0 + file.length := by rw [Nat.zero_add, hdata.length_eq]
    have hyields := yields_of_frames (⟨reader, name, mode, 0⟩ : FileSource ρ)
      (raws.map fun raw => (raw.reread data).bytes) (fun bytes hbytes => ?_)
      (by rwa [RawBlock.flatten_reread hlength])
    · rwa [RawBlock.layOut_reread hlength] at hyields
    · obtain ⟨raw, hraw, rfl⟩ := List.mem_map.mp hbytes
      exact hdata.frames hframes hraw

/-- Two packed blocks, and what is read after the first octet of the file has changed. -/
theorem FileSource.yields_two_blocks :
    let first : Bytes := [0, 0, 0, 0, 0, 0, 0, 16] ++ List.replicate 8 1
    let second : Bytes := [0, 0, 0, 0, 0, 0, 0, 17] ++ List.replicate 9 2
    let changed : Bytes := [7, 0, 0, 0, 0, 0, 0, 16] ++ List.replicate 8 1
    (∃ f : FileSink, BlockSink.writeAll (⟨"volume", .packed, #[], false⟩ : FileSink) [first, second]
      = (f, .ok ()) ∧ f.contents.toList = first ++ second) ∧
    (∃ s, BlockSource.Yields (⟨first ++ second, "volume", .packed, 0⟩ : FileSource Bytes)
      [⟨0, first⟩, ⟨16, second⟩] s) ∧
    ∃ s, BlockSource.Yields (⟨changed ++ second, "volume", .packed, 0⟩ : FileSource Bytes)
      [⟨0, changed⟩, ⟨16, second⟩] s := by
  intro first second changed
  have htakes : ∀ block ∈ [first, second], BlockMode.packed.Takes block := by decide
  obtain ⟨hwritten, hread, -, hchanged⟩ := yields_written htakes "volume" Bytes
  refine ⟨hwritten, hread _ (OctetReader.delivers_self _), ?_⟩
  exact hchanged (changed ++ second) ⟨rfl, by decide⟩ _ (OctetReader.delivers_self _)

end BackupVolume
