import BackupVolume.Device.Chain
import BackupVolume.Proofs.Volume.Recovery
import Mathlib.Data.List.Forall2

/-! # A chain reads like one volume

A chain hands out what its volumes hold, one behind another, and whoever reads it cannot tell it
from one volume that holds all of it. The chain releases a volume once, when its data have come to
their end, and turns to the next one.
-/
namespace BackupVolume

namespace BlockSource
variable {σ ρ : Type} [BlockSource σ] [BlockSource ρ]

/-- What a source hands out is told by its readings. -/
theorem Yields.of_read_eq {s t u : σ} {raws : List RawBlock} (h : Yields t raws u)
    (hr : read s = read t) : Yields s raws u := by
  cases h with
  | done hd => exact .done (hr.trans hd)
  | block hb hy => exact .block (hr.trans hb) hy

def IsExhausted (s : σ) : Prop := read s = (s, .ok none)

theorem IsExhausted.mirrors {s : σ} {t : ρ} (hs : IsExhausted s) (ht : IsExhausted t) :
    Mirrors s t := by
  intro n
  induction n with
  | zero => rw [later, later, reading, reading, hs, ht]
  | succ n ih =>
    rw [later, later, hs, ht]
    exact ih

/-- Sources that hand out the same octets up to the end of their data mirror each other. -/
theorem Yields.mirrors {s u : σ} {t v : ρ} {raws copies : List RawBlock} (hs : Yields s raws u)
    (ht : Yields t copies v) (hu : IsExhausted u) (hv : IsExhausted v)
    (hsame : raws.map RawBlock.bytes = copies.map RawBlock.bytes) : Mirrors s t := by
  intro n
  induction hs generalizing t copies n with
  | @done s u hread =>
    rcases ht with hdone | _
    · cases n with
      | zero => rw [later, later, reading, reading, hread, hdone]
      | succ n =>
        rw [later, later, hread, hdone]
        exact hu.mirrors hv n
    · cases hsame
  | @block s s' u raw raws hread _ ih =>
    rcases ht with _ | @⟨_, t', _, copy, copies, hblock, hrest⟩
    · cases hsame
    · obtain ⟨hbytes, hmap⟩ := List.cons.inj hsame
      cases n with
      | zero =>
        rw [later, later, reading, reading, hread, hblock]
        exact congrArg (fun b => Except.ok (some b)) hbytes
      | succ n =>
        rw [later, later, hread, hblock]
        exact ih hrest hu hmap n

def Holds (s : σ) (bs : List Bytes) : Prop :=
  ∃ raws u, Yields s raws u ∧ raws.map RawBlock.bytes = bs ∧ (release u).2 = .ok ()

end BlockSource

open BlockSource

theorem MemoryVolume.holds_ofBlocks (name : String) (bs : List Bytes) :
    Holds (ofBlocks name bs) bs :=
  ⟨_, _, yields_ofBlocks name bs, map_bytes_rawBlocks 0 bs, rfl⟩

theorem MemoryVolume.isExhausted (name : String) (bs : List Bytes) :
    IsExhausted { ofBlocks name bs with cursor := bs.length } := by
  simp [IsExhausted, BlockSource.read, MemoryVolume.read, ofBlocks]

namespace Chain
variable {α : Type} [BlockSource α]

theorem isExhausted (passed : List α) : IsExhausted (⟨passed, []⟩ : Chain α) := rfl

/-- The chain hands out what its current volume has left, and then what the others hold. -/
theorem yields_cons {v u : α} {raws : List RawBlock} (hv : Yields v raws u)
    (hrelease : (BlockSource.release u).2 = .ok ()) {rest : List α} {others : List RawBlock}
    {last : Chain α} (passed : List α)
    (hrest : Yields (⟨(BlockSource.release u).1 :: passed, rest⟩ : Chain α) others last) :
    Yields (⟨passed, v :: rest⟩ : Chain α) (raws ++ others) last := by
  induction hv with
  | @done v u hread =>
    apply hrest.of_read_eq
    have hreleased : BlockSource.release u = ((BlockSource.release u).1, .ok ()) :=
      Prod.ext rfl hrelease
    change readFrom passed (v :: rest) = readFrom _ rest
    rw [readFrom, hread]
    simp only
    rw [hreleased]
  | @block v t u raw raws hread _ ih =>
    refine .block (t := ⟨passed, t :: rest⟩) ?_ (ih hrelease hrest)
    change readFrom passed (v :: rest) = _
    rw [readFrom, hread]

/-- A chain hands out what its volumes hold, one behind another. -/
theorem yields_flatten {vs : List α} {bss : List (List Bytes)} (h : List.Forall₂ Holds vs bss)
    (passed : List α) :
    ∃ raws last, Yields (⟨passed, vs⟩ : Chain α) raws ⟨last, []⟩ ∧
      raws.map RawBlock.bytes = bss.flatten := by
  induction h generalizing passed with
  | nil => exact ⟨[], passed, .done rfl, rfl⟩
  | @cons v bs vs bss hv _ ih =>
    obtain ⟨raws, u, hyields, rfl, hrelease⟩ := hv
    obtain ⟨others, last, hrest, hothers⟩ := ih ((BlockSource.release u).1 :: passed)
    refine ⟨raws ++ others, last, yields_cons hyields hrelease passed hrest, ?_⟩
    rw [List.map_append, hothers, List.flatten_cons]

/-- A chain mirrors one volume that holds all that its volumes hold. -/
theorem mirrors_ofBlocks {vs : List α} {bss : List (List Bytes)} (h : List.Forall₂ Holds vs bss)
    (name : String) : Mirrors (ofList vs) (MemoryVolume.ofBlocks name bss.flatten) := by
  obtain ⟨raws, last, hyields, hbytes⟩ := yields_flatten h []
  refine hyields.mirrors (MemoryVolume.yields_ofBlocks name bss.flatten) (isExhausted last)
    (MemoryVolume.isExhausted name bss.flatten) ?_
  rw [hbytes, MemoryVolume.map_bytes_rawBlocks]

end Chain

namespace ReaderStats

def afterDropping (t : ReaderStats) (waits : Bool) : ReaderStats :=
  if waits then { t with dropped := t.dropped + 1 } else t

def afterDraining (t : ReaderStats) : Option (Except Failure Record) → ReaderStats
  | some (.error _) => { t with brokenRecords := t.brokenRecords + 1 }
  | _ => t

def afterFetching (t : ReaderStats) (waits : Bool) : VolumeReader.Fetched → ReaderStats
  | .endOfData => t.afterDropping waits
  | .block => { t with blocks := t.blocks + 1 }
  | .failed e =>
    if e.scope = .block then
      { t with
        blocks := t.blocks + 1
        corruptBlocks := t.corruptBlocks + 1 }.afterDropping waits
    else t

end ReaderStats

namespace VolumeReader
variable {σ ρ : Type}

theorem stats_dropPending (r : VolumeReader σ) :
    r.dropPending.stats = r.stats.afterDropping r.assembler.isPending := by
  rw [dropPending, ReaderStats.afterDropping]
  split <;> rfl

theorem stats_drain {r s : VolumeReader σ} {x : Option (Except Failure Record)}
    (h : r.drain = (s, x)) : s.stats = r.stats.afterDraining x := by
  rw [drain] at h
  split at h
  · cases h
    rfl
  · split at h
    all_goals
      cases h
      rfl

variable [BlockSource σ] [BlockSource ρ]

theorem stats_fetch {r s : VolumeReader σ} {f : Fetched} (h : r.fetch = (s, f)) :
    s.stats = r.stats.afterFetching r.assembler.isPending f := by
  rw [fetch] at h
  split at h
  · cases h
    rfl
  · cases h
    exact stats_dropPending _
  · simp only at h
    split at h
    · cases h
      rfl
    · next e hload =>
      cases h
      rw [stats_dropPending, ReaderStats.afterFetching, if_pos (LoadedBlock.scope_of_load hload)]

structure Twins (r : VolumeReader σ) (s : VolumeReader ρ) : Prop where
  alike : r.Alike s
  stats : r.stats = s.stats

theorem Twins.isSimulation :
    IsSimulation (fun (r : VolumeReader σ) (s : VolumeReader ρ) => r.Twins s) where
  drain h hd := by
    obtain ⟨s', hs, halike⟩ := h.alike.drain hd
    refine ⟨s', hs, halike, ?_⟩
    rw [stats_drain hd, stats_drain hs, h.stats]
  fetch h hf := by
    obtain ⟨s', hs, halike⟩ := h.alike.fetch hf
    refine ⟨s', hs, halike, ?_⟩
    rw [stats_fetch hf, stats_fetch hs, h.stats, Assembler.isPending, Assembler.isPending,
      h.alike.pending]

theorem twins_opened {s : σ} {t : ρ} (h : Mirrors s t) (verify : Bool) (key : Option VolumeKey) :
    (opened verify key s).Twins (opened verify key t) :=
  ⟨⟨h, rfl, rfl, rfl, rfl⟩, rfl⟩

/-- The end of the data is told by the source. -/
theorem read_of_nothing {r s : VolumeReader σ} (h : r.nextRecord = (s, .ok none)) :
    ∃ source, BlockSource.read source = (s.source, .ok none) := by
  fun_induction nextRecord r with
  | case1 r t record drained => cases h
  | case2 r t e drained => cases h
  | case3 r t drained u fetched =>
    cases h
    refine ⟨t.source, ?_⟩
    rw [fetch] at fetched
    split at fetched
    · cases fetched
    · next hread =>
      cases fetched
      rw [hread, source_dropPending]
    · simp only at fetched
      split at fetched <;> cases fetched
  | case4 r t drained u e fetched => cases h
  | case5 r t drained u fetched ih => exact ih h

end VolumeReader

structure Watched (α : Type) where
  source : α
  hasEnded : Bool := false
  releases : Nat := 0

namespace Watched
variable {α : Type} [BlockSource α]

instance : BlockSource (Watched α) where
  name v := BlockSource.name v.source
  read v :=
    match BlockSource.read v.source with
    | (source, .ok none) => ({ v with source, hasEnded := true }, .ok none)
    | (source, x) => ({ v with source }, x)
  release v :=
    let (source, x) := BlockSource.release v.source
    ({ v with source, releases := v.releases + 1 }, x)
  remaining v := BlockSource.remaining v.source
  remaining_read {v w b} h := by
    rcases hread : BlockSource.read v.source with ⟨source, e | _ | raw⟩
    · simp [hread] at h
    · simp [hread] at h
    · simp only [hread, Prod.mk.injEq, Except.ok.injEq, Option.some.injEq] at h
      obtain ⟨rfl, rfl⟩ := h
      exact BlockSource.remaining_read hread

def ofSource (s : α) : Watched α := { source := s }

def IsOver (v : Watched α) : Prop := v.hasEnded = true ∧ v.releases = 1

/-- Not read to its end and not released; both will succeed. -/
structure IsOpen (v : Watched α) : Prop where
  hasEnded : v.hasEnded = false
  releases : v.releases = 0
  holds : ∃ bs, Holds v.source bs

theorem yields_ofSource {s u : α} {raws : List RawBlock} (h : Yields s raws u) :
    Yields (ofSource s) raws ⟨u, true, 0⟩ := by
  induction h with
  | done hread => exact .done (by simp only [BlockSource.read, ofSource, hread])
  | @block s t _ raw raws hread _ ih =>
    refine .block (t := ofSource t) ?_ ih
    simp only [BlockSource.read, ofSource, hread]

/-- Watching changes nothing. -/
theorem holds_ofSource {s : α} {bs : List Bytes} (h : Holds s bs) : Holds (ofSource s) bs := by
  obtain ⟨raws, u, hyields, hbytes, hrelease⟩ := h
  exact ⟨raws, ⟨u, true, 0⟩, yields_ofSource hyields, hbytes, hrelease⟩

theorem isOpen_ofSource {vs : List α} {bss : List (List Bytes)} (h : List.Forall₂ Holds vs bss) :
    ∀ v ∈ vs.map ofSource, v.IsOpen := by
  induction h with
  | nil =>
    intro v hv
    cases hv
  | @cons s bs vs bss hs _ ih =>
    rw [List.map_cons]
    exact List.forall_mem_cons.mpr ⟨⟨rfl, rfl, bs, hs⟩, ih⟩

/-- Reading an open source hands out a block, or comes to the end, and then it can be released. -/
theorem IsOpen.read {v : Watched α} (h : v.IsOpen) :
    (∃ w raw, BlockSource.read v = (w, .ok (some raw)) ∧ w.IsOpen) ∨
      ∃ w u, BlockSource.read v = (w, .ok none) ∧ BlockSource.release w = (u, .ok ()) ∧
        u.IsOver := by
  obtain ⟨source, hasEnded, releases⟩ := v
  obtain ⟨rfl, rfl, bs, raws, last, hyields, -, hrelease⟩ := h
  cases hyields with
  | done hread =>
    refine .inr ⟨⟨last, true, 0⟩, ⟨(BlockSource.release last).1, true, 1⟩, ?_, ?_, rfl, rfl⟩
    · simp only [BlockSource.read, hread]
    · exact Prod.ext rfl hrelease
  | @block _ t _ raw raws hread hrest =>
    refine .inl ⟨⟨t, false, 0⟩, raw, ?_, rfl, rfl, _, raws, last, hrest, rfl, hrelease⟩
    simp only [BlockSource.read, hread]

end Watched

namespace Chain
variable {α : Type} [BlockSource α]

structure IsOrderly (count : Nat) (c : Chain (Watched α)) : Prop where
  count : c.passed.length + c.rest.length = count
  passed : ∀ v ∈ c.passed, v.IsOver
  rest : ∀ v ∈ c.rest, v.IsOpen

theorem isOrderly_readFrom {passed rest : List (Watched α)} {count : Nat}
    (h : (⟨passed, rest⟩ : Chain (Watched α)).IsOrderly count) :
    (readFrom passed rest).1.IsOrderly count := by
  induction rest generalizing passed with
  | nil => exact h
  | cons v rest ih =>
    obtain ⟨hcount, hpassed, hrest⟩ := h
    have hothers : ∀ w ∈ rest, w.IsOpen := fun w hw => hrest w (List.mem_cons_of_mem v hw)
    rcases (hrest v List.mem_cons_self).read with ⟨w, raw, hread, hw⟩ | ⟨w, u, hread, hu, hover⟩
    · simp only [readFrom, hread]
      exact ⟨hcount, hpassed, List.forall_mem_cons.mpr ⟨hw, hothers⟩⟩
    · simp only [readFrom, hread, hu]
      refine ih ⟨?_, List.forall_mem_cons.mpr ⟨hover, hpassed⟩, hothers⟩
      simp only [List.length_cons] at hcount ⊢
      omega

theorem isOrderly_later {c : Chain (Watched α)} {count : Nat} (h : c.IsOrderly count) (n : Nat) :
    (later c n).IsOrderly count := by
  induction n generalizing c with
  | zero => exact h
  | succ n ih => exact ih (isOrderly_readFrom h)

theorem isOrderly_ofList {vs : List α} {bss : List (List Bytes)}
    (h : List.Forall₂ Holds vs bss) :
    (ofList (vs.map Watched.ofSource)).IsOrderly vs.length := by
  constructor
  · simp [ofList]
  · intro v hv
    cases hv
  · exact Watched.isOpen_ofSource h

/-- Only behind its last volume does a chain come to its end. -/
theorem rest_of_readFrom_none {passed rest : List α} {c : Chain α}
    (h : readFrom passed rest = (c, .ok none)) : c.rest = [] := by
  induction rest generalizing passed with
  | nil =>
    cases h
    rfl
  | cons v rest ih =>
    rw [readFrom] at h
    split at h
    · cases h
    · cases h
    · split at h
      · cases h
      · exact ih h

end Chain

namespace VolumeReader
variable {α : Type} [BlockSource α]

/-- Wherever the volumes of a chain end, a reader gives what it gives for one volume that holds all
their blocks, and counts the same. A volume that has been read to its end has been released once,
and at the end of the data these are all the volumes. -/
theorem reads_chain_like_one {vs : List α} {bss : List (List Bytes)}
    (h : List.Forall₂ Holds vs bss) (name : String) (verify : Bool) (key : Option VolumeKey) :
    let one := opened verify key (MemoryVolume.ofBlocks name bss.flatten)
    let chained := opened verify key (Chain.ofList vs)
    let watched := opened verify key (Chain.ofList (vs.map Watched.ofSource))
    ∀ n, chained.result n = one.result n ∧ (chained.after n).stats = (one.after n).stats ∧
      watched.result n = one.result n ∧ (watched.after n).stats = (one.after n).stats ∧
      (watched.after n).source.passed.length + (watched.after n).source.rest.length = vs.length ∧
      (∀ v ∈ (watched.after n).source.passed, v.hasEnded = true ∧ v.releases = 1) ∧
      (∀ v ∈ (watched.after n).source.rest, v.hasEnded = false ∧ v.releases = 0) ∧
      (one.result n = .ok none → (watched.after (n + 1)).source.rest = []) := by
  intro one chained watched n
  have hchained : chained.Twins one := twins_opened (Chain.mirrors_ofBlocks h name) verify key
  have hwatching : List.Forall₂ Holds (vs.map Watched.ofSource) bss := by
    rw [List.forall₂_map_left_iff]
    exact h.imp fun _ _ hv => Watched.holds_ofSource hv
  have hwatched : watched.Twins one :=
    twins_opened (Chain.mirrors_ofBlocks hwatching name) verify key
  obtain ⟨k, htook, -⟩ := took_after verify key (Chain.ofList (vs.map Watched.ofSource)) n
  have horderly : (watched.after n).source.IsOrderly vs.length := by
    have hsource : (watched.after n).source = _ := htook.at_later
    rw [hsource]
    exact Chain.isOrderly_later (Chain.isOrderly_ofList h) k
  refine ⟨Twins.isSimulation.result hchained n, (Twins.isSimulation.after hchained n).stats,
    Twins.isSimulation.result hwatched n, (Twins.isSimulation.after hwatched n).stats,
    horderly.count, horderly.passed, ?_, ?_⟩
  · intro v hv
    exact ⟨(horderly.rest v hv).hasEnded, (horderly.rest v hv).releases⟩
  · intro hnothing
    have hresult := Twins.isSimulation.result hwatched n
    rw [hnothing] at hresult
    obtain ⟨c, hread⟩ := read_of_nothing (Prod.ext rfl hresult :
      (watched.after n).nextRecord = ((watched.after n).nextRecord.1, .ok none))
    rw [after_succ]
    exact Chain.rest_of_readFrom_none hread

def endingBlock : Bytes := pieceBlock 1 ⟨1, ⟨-2⟩, 3, {}⟩ [30, 40, 50]

def splitVolume : MemoryVolume := .ofBlocks "all" [startedBlock, endingBlock, [4, 5]]

def endingReader : VolumeReader MemoryVolume :=
  { waitingReader { splitVolume with cursor := 2 } with
    current := some ⟨⟨.bb03, .none, 39, 1, {}, 0⟩, 1,
      PieceHeader.toBytes .bb03 ⟨1, ⟨-2⟩, 3, {}⟩ ++ [30, 40, 50]⟩
    stats := { blocks := 2 } }

def endedReader : VolumeReader MemoryVolume :=
  { endingReader with
    current := some ⟨⟨.bb03, .none, 39, 1, {}, 0⟩, 1, []⟩
    assembler := { records := 1 } }

theorem nextRecord_splitVolume : (opened true none splitVolume).nextRecord
    = (endedReader, .ok (some ⟨1, ⟨2⟩, [10, 20, 30, 40, 50], {}, 0⟩)) := by
  have hstarted : (opened true none splitVolume).nextRecord
      = (waitingReader { splitVolume with cursor := 1 }).nextRecord := nextRecord_started rfl
  have hfetched : (waitingReader { splitVolume with cursor := 1 }).nextRecord
      = endingReader.nextRecord := nextRecord_fetched (f := .block) rfl rfl
  let b : LoadedBlock := ⟨⟨.bb03, .none, 39, 1, {}, 0⟩, 1,
    PieceHeader.toBytes .bb03 ⟨1, ⟨-2⟩, 3, {}⟩ ++ [30, 40, 50]⟩
  have hunpack := Assembler.unpack_continued (a := endingReader.assembler) (b := b) rfl rfl rfl
    (by decide) rfl (by decide)
  have hdrained : endingReader.drain
      = (endedReader, some (.ok ⟨1, ⟨2⟩, [10, 20, 30, 40, 50], {}, 0⟩)) := drain_record rfl hunpack
  rw [hstarted, hfetched, nextRecord_drained hdrained]
  rfl

theorem nextRecord_endedReader : endedReader.nextRecord.2 = .error (.header (.truncated 2)) := by
  have hdrained := drain_exhausted (r := endedReader) (b := ⟨⟨.bb03, .none, 39, 1, {}, 0⟩, 1, []⟩)
    rfl (Assembler.unpack_short rfl rfl (by decide))
  rw [nextRecord_fetched (f := .failed (.header (.truncated 2))) hdrained rfl]

/-- A record whose pieces lie in two volumes, with an empty one between them, is read as in one
volume, and so is the damaged block behind it. -/
theorem reads_chain_behind_empty :
    let vs := [MemoryVolume.ofBlocks "first" [startedBlock], .ofBlocks "empty" [],
      .ofBlocks "last" [endingBlock, [4, 5]]]
    let bss : List (List Bytes) := [[startedBlock], [], [endingBlock, [4, 5]]]
    let chained := opened true none (Chain.ofList vs)
    List.Forall₂ Holds vs bss ∧
      chained.result 0 = .ok (some ⟨1, ⟨2⟩, [10, 20, 30, 40, 50], {}, 0⟩) ∧
      chained.result 1 = .error (.header (.truncated 2)) := by
  intro vs bss chained
  have hholds : List.Forall₂ Holds vs bss :=
    .cons (MemoryVolume.holds_ofBlocks "first" _) (.cons (MemoryVolume.holds_ofBlocks "empty" _)
      (.cons (MemoryVolume.holds_ofBlocks "last" _) .nil))
  have hsame := reads_chain_like_one hholds "all" true none
  refine ⟨hholds, (hsame 0).1.trans ?_, (hsame 1).1.trans ?_⟩
  · exact congrArg Prod.snd nextRecord_splitVolume
  · change (opened true none splitVolume).nextRecord.1.nextRecord.2 = _
    rw [nextRecord_splitVolume]
    exact nextRecord_endedReader

end VolumeReader
end BackupVolume
