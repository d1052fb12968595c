import BackupVolume.Proofs.Device.Traffic
import BackupVolume.Proofs.Record.Pieces
import BackupVolume.Volume.Traversal

/-! # What a volume shows

A reader shows what its blocks yield, block after block: the findings of a volume are a fold over
the blocks that its source hands out. A visitor that never has enough is shown all of them.
-/
namespace BackupVolume

def Finding.ofUnpacked : Except RecordError Record → Finding
  | .ok r => .record r
  | .error e => .damage (.record e)

def Finding.records (fs : List Finding) : List Record :=
  fs.filterMap fun
    | .record r => some r
    | .damage _ => none

def Finding.failures (fs : List Finding) : List Failure :=
  fs.filterMap fun
    | .record _ => none
    | .damage e => some e

namespace Finding

theorem records_append (fs gs : List Finding) : records (fs ++ gs) = records fs ++ records gs :=
  List.filterMap_append

theorem failures_append (fs gs : List Finding) :
    failures (fs ++ gs) = failures fs ++ failures gs := List.filterMap_append

theorem records_prefix {fs gs : List Finding} (h : fs <+: gs) : records fs <+: records gs :=
  h.filterMap _

theorem records_map_record (rs : List Record) : records (rs.map .record) = rs := by
  rw [records, List.filterMap_map]
  exact List.filterMap_some

/-- Before the first failure there are records only. -/
theorem exists_of_failures {fs : List Finding} {e : Failure} {es : List Failure}
    (h : failures fs = e :: es) :
    ∃ before after, fs = before ++ .damage e :: after ∧ failures before = [] := by
  obtain ⟨before, f, after, rfl, hnone, hf, -⟩ := List.filterMap_eq_cons_iff.mp h
  cases f with
  | record r => cases hf
  | damage x =>
    cases hf
    exact ⟨before, after, rfl, List.filterMap_eq_nil_iff.mpr hnone⟩

/-- The first failure is found in one place only. -/
theorem eq_of_first_failure {fs gs fs' gs' : List Finding} {x y : Failure}
    (h : fs ++ .damage x :: fs' = gs ++ .damage y :: gs') (hf : failures fs = [])
    (hg : failures gs = []) : fs = gs := by
  induction fs generalizing gs with
  | nil =>
    cases gs with
    | nil => rfl
    | cons g gs =>
      cases h
      cases hg
  | cons f fs ih =>
    cases gs with
    | nil =>
      cases h
      cases hf
    | cons g gs =>
      obtain ⟨rfl, hrest⟩ := List.cons.inj h
      cases f with
      | record r => rw [ih hrest hf hg]
      | damage e => cases hf

theorem failures_map_record (rs : List Record) : failures (rs.map .record) = [] := by
  rw [failures, List.filterMap_map]
  exact List.filterMap_eq_nil_iff.mpr fun _ _ => rfl

end Finding

def showAll {τ ε : Type} (visit : τ → Finding → τ × Option ε) (t : τ) :
    List Finding → τ × Option ε
  | [] => (t, none)
  | f :: fs =>
    match visit t f with
    | (u, some reason) => (u, some reason)
    | (u, none) => showAll visit u fs

def keep (fs : List Finding) (f : Finding) : List Finding × Option Empty := (fs ++ [f], none)

theorem showAll_keep (fs gs : List Finding) : showAll keep fs gs = (fs ++ gs, none) := by
  induction gs generalizing fs with
  | nil => simp [showAll]
  | cons g gs ih => simp [showAll, keep, ih]

theorem showAll_cons {τ ε : Type} {visit : τ → Finding → τ × Option ε} {t u : τ} {f : Finding}
    {fs : List Finding} (h : showAll visit t (f :: fs) = (u, none)) :
    ∃ v, visit t f = (v, none) ∧ showAll visit v fs = (u, none) := by
  rw [showAll] at h
  rcases hv : visit t f with ⟨v, _ | reason⟩
  · exact ⟨v, rfl, by simpa [hv] using h⟩
  · simp [hv] at h

theorem showAll_append {τ ε : Type} {visit : τ → Finding → τ × Option ε} {t u : τ}
    {fs gs : List Finding} (h : showAll visit t (fs ++ gs) = (u, none)) :
    ∃ v, showAll visit t fs = (v, none) ∧ showAll visit v gs = (u, none) := by
  induction fs generalizing t with
  | nil => exact ⟨t, rfl, h⟩
  | cons f fs ih =>
    obtain ⟨v, hv, hrest⟩ := showAll_cons h
    obtain ⟨w, hw, hgs⟩ := ih hrest
    exact ⟨w, by simp only [showAll, hv, hw], hgs⟩

/-- A visitor that has not had enough of the first findings is shown the others. -/
theorem showAll_append_of_none {τ ε : Type} {visit : τ → Finding → τ × Option ε} {t u : τ}
    {fs : List Finding} (h : showAll visit t fs = (u, none)) (gs : List Finding) :
    showAll visit t (fs ++ gs) = showAll visit u gs := by
  induction fs generalizing t with
  | nil =>
    cases h
    rfl
  | cons f fs ih =>
    obtain ⟨v, hv, hrest⟩ := showAll_cons h
    rw [List.cons_append, showAll, hv]
    exact ih hrest

/-- What holds of a visitor and of all that it has been shown, and is kept by every finding, holds when
it has had enough or has been shown everything. -/
theorem showAll_induction {τ ε : Type} {visit : τ → Finding → τ × Option ε}
    {P : List Finding → τ → Option ε → Prop} {fs : List Finding}
    (hvisit : ∀ shown t f, P shown t none → f ∈ fs →
      P (shown ++ [f]) (visit t f).1 (visit t f).2) {t : τ} (h : P [] t none) :
    ∃ shown, shown <+: fs ∧ P shown (showAll visit t fs).1 (showAll visit t fs).2 ∧
      ((showAll visit t fs).2 = none → shown = fs) := by
  have hall (before rest : List Finding) (hrest : ∀ f ∈ rest, f ∈ fs) (t : τ)
      (h : P before t none) :
      ∃ shown, shown <+: rest ∧ P (before ++ shown) (showAll visit t rest).1
        (showAll visit t rest).2 ∧ ((showAll visit t rest).2 = none → shown = rest) := by
    induction rest generalizing before t with
    | nil => exact ⟨[], List.nil_prefix, by rw [List.append_nil]; exact h, fun _ => rfl⟩
    | cons f rest ih =>
      have hnext := hvisit before t f h (hrest f (by simp))
      rw [showAll]
      rcases hv : visit t f with ⟨u, _ | reason⟩
      all_goals rw [hv] at hnext
      · obtain ⟨shown, hprefix, hinv, hwhole⟩ :=
          ih (before ++ [f]) (fun g hg => hrest g (by simp [hg])) u hnext
        rw [List.append_assoc] at hinv
        exact ⟨f :: shown, List.cons_prefix_cons.mpr ⟨rfl, hprefix⟩, hinv,
          fun hnone => congrArg (f :: ·) (hwhole hnone)⟩
      · exact ⟨[f], ⟨rest, rfl⟩, hnext, fun hnone => by cases hnone⟩
  exact hall [] fs (fun _ hf => hf) t h

/-- Two visitors stay related while the first one goes on, where what is good at the end has been good
all the time. -/
theorem showAll_related {τ υ ε δ : Type} {visit : τ → Finding → τ × Option ε}
    {visit' : υ → Finding → υ × Option δ} {R : τ → υ → Prop} {Good : τ → Prop}
    (hgood : ∀ t f v, visit t f = (v, none) → Good v → Good t)
    (hvisit : ∀ t u f v, R t u → visit t f = (v, none) → Good v →
      ∃ w, visit' u f = (w, none) ∧ R v w)
    {t v : τ} {u : υ} {fs : List Finding} (h : Good t → R t u)
    (hv : showAll visit t fs = (v, none)) (hend : Good v) :
    ∃ w, showAll visit' u fs = (w, none) ∧ R v w := by
  have hall (fs : List Finding) (t : τ) (hv : showAll visit t fs = (v, none)) : Good t := by
    induction fs generalizing t with
    | nil =>
      cases hv
      exact hend
    | cons f fs ih =>
      obtain ⟨s, hs, hrest⟩ := showAll_cons hv
      exact hgood t f s hs (ih s hrest)
  induction fs generalizing t u with
  | nil =>
    cases hv
    exact ⟨u, rfl, h hend⟩
  | cons f fs ih =>
    have hnow := h (hall (f :: fs) t hv)
    obtain ⟨s, hs, hrest⟩ := showAll_cons hv
    obtain ⟨w, hw, hrelated⟩ := hvisit t u f s hnow hs (hall fs s hrest)
    obtain ⟨x, hx, hfinal⟩ := ih (fun _ => hrelated) hrest
    exact ⟨x, by simp only [showAll, hw, hx], hfinal⟩

def Ending.forEveryone {ε : Type} : Ending Empty → Ending ε
  | .endOfData => .endOfData
  | .stopped reason => reason.elim
  | .unreadable e => .unreadable e

namespace VolumeReader
variable {σ τ υ ε : Type}

/-- Takes a block from the source: what it yields is found, or the block is damaged. -/
def receive (r : VolumeReader σ) (raw : RawBlock) : VolumeReader σ × List Finding :=
  let stats := { r.stats with blocks := r.stats.blocks + 1 }
  match LoadedBlock.load r.verify r.key raw with
  | .ok b =>
    let (assembler, xs) := r.assembler.unpackAll b
    let broken := xs.countP fun x => !Except.isOk x
    ({ r with assembler, stats := { stats with brokenRecords := stats.brokenRecords + broken } },
      xs.map Finding.ofUnpacked)
  | .error e =>
    ({ r with stats := { stats with corruptBlocks := stats.corruptBlocks + 1 } }.dropPending,
      [.damage e])

def receiveAll (r : VolumeReader σ) : List RawBlock → VolumeReader σ × List Finding
  | [] => (r, [])
  | raw :: raws =>
    let (s, fs) := r.receive raw
    let (t, gs) := s.receiveAll raws
    (t, fs ++ gs)

theorem current_receive (r : VolumeReader σ) (raw : RawBlock) :
    (r.receive raw).1.current = r.current := by
  rw [receive]
  split
  · rfl
  · rw [dropPending]
    split <;> rfl

/-- Receiving does not look at the source. -/
theorem receive_withSource (r : VolumeReader σ) (source : σ) (raw : RawBlock) :
    { r with source }.receive raw = ({ (r.receive raw).1 with source }, (r.receive raw).2) := by
  simp only [receive]
  split
  · rfl
  · simp only [dropPending]
    split <;> rfl

theorem receiveAll_withSource (r : VolumeReader σ) (source : σ) (raws : List RawBlock) :
    { r with source }.receiveAll raws
      = ({ (r.receiveAll raws).1 with source }, (r.receiveAll raws).2) := by
  induction raws generalizing r with
  | nil => rfl
  | cons raw raws ih => simp only [receiveAll, receive_withSource, ih]

def afterAll (r : VolumeReader σ) (raws : List RawBlock) (source : σ) : VolumeReader σ :=
  { (r.receiveAll raws).1 with source }.dropPending

section Drain
variable {r : VolumeReader σ} {b d : LoadedBlock} {c : Assembler}

theorem drain_record {x : Record} (hc : r.current = some b)
    (hu : r.assembler.unpack b = (c, d, .ok (.record x))) :
    r.drain = ({ r with assembler := c, current := some d }, some (.ok x)) := by
  simp only [drain, hc, hu]

theorem drain_exhausted (hc : r.current = some b)
    (hu : r.assembler.unpack b = (c, d, .ok .exhausted)) :
    r.drain = ({ r with assembler := c, current := none }, none) := by
  simp only [drain, hc, hu]

theorem drain_error {e : RecordError} (hc : r.current = some b)
    (hu : r.assembler.unpack b = (c, d, .error e)) :
    r.drain = ({ r with
      assembler := c
      current := some d
      stats := { r.stats with brokenRecords := r.stats.brokenRecords + 1 } },
      some (.error (.record e))) := by
  simp only [drain, hc, hu]

end Drain

variable [BlockSource σ]

def readAll (r : VolumeReader σ) : List Finding × VolumeReader σ × Ending Empty :=
  r.traverse keep []

section Unfolding
variable {visit : τ → Finding → τ × Option ε} {t u : τ} {r s : VolumeReader σ}

theorem traverse_eq :
    r.traverse visit t =
      match r.nextRecord with
      | (s, .ok none) => (t, s, .endOfData)
      | (s, .ok (some record)) =>
        match visit t (.record record) with
        | (u, some reason) => (u, s, .stopped reason)
        | (u, none) => s.traverse visit u
      | (s, .error e) =>
        if e.scope = .block then
          match visit t (.damage e) with
          | (u, some reason) => (u, s, .stopped reason)
          | (u, none) => s.traverse visit u
        else (t, s, .unreadable e) := by
  rw [traverse]
  rcases r.nextRecord with ⟨s, e | _ | x⟩
  · split <;> rename_i next <;> cases next
    rfl
  · split <;> rename_i next <;> cases next
    rfl
  · split <;> rename_i next <;> cases next
    rfl

theorem traverse_record {x : Record} (hn : r.nextRecord = (s, .ok (some x)))
    (hv : visit t (.record x) = (u, none)) : r.traverse visit t = s.traverse visit u := by
  rw [traverse_eq, hn]
  simp only [hv]

theorem traverse_damage {e : Failure} (hn : r.nextRecord = (s, .error e)) (he : e.scope = .block)
    (hv : visit t (.damage e) = (u, none)) : r.traverse visit t = s.traverse visit u := by
  rw [traverse_eq, hn]
  simp only [if_pos he, hv]

theorem traverse_end (hn : r.nextRecord = (s, .ok none)) :
    r.traverse visit t = (t, s, .endOfData) := by
  rw [traverse_eq, hn]

theorem traverse_congr (hn : r.nextRecord = s.nextRecord) :
    r.traverse visit t = s.traverse visit t := by
  rw [traverse_eq, hn, ← traverse_eq]

theorem nextRecord_drained {x : Except Failure Record} (hd : r.drain = (s, some x)) :
    r.nextRecord = (s, x.map some) := by
  rw [nextRecord]
  split <;> rename_i drained <;> rw [hd] at drained <;> cases drained <;> rfl

theorem nextRecord_fetched {f : Fetched} (hd : r.drain = (s, none)) {v : VolumeReader σ}
    (hf : s.fetch = (v, f)) :
    r.nextRecord = match f with
      | .endOfData => (v, .ok none)
      | .failed e => (v, .error e)
      | .block => v.nextRecord := by
  rw [nextRecord]
  split <;> rename_i drained <;> rw [hd] at drained <;> cases drained
  split <;> rename_i fetched <;> rw [hf] at fetched <;> cases fetched <;> rfl

/-- Behind an exhausted block reading goes on as if there had been none. -/
theorem nextRecord_exhausted (hd : r.drain = (s, none)) (hs : s.current = none) :
    r.nextRecord = s.nextRecord := by
  have hs : s.drain = (s, none) := by rw [drain, hs]
  rw [nextRecord_fetched hd rfl, nextRecord_fetched hs rfl]

/-- Shows what is left of the current block, and goes on behind it. -/
theorem traverse_current {visit : τ → Finding → τ × Option ε} (r : VolumeReader σ) {t u : τ}
    {b : LoadedBlock} (hc : r.current = some b)
    (hv : showAll visit t ((r.assembler.unpackAll b).2.map Finding.ofUnpacked) = (u, none)) :
    r.traverse visit t =
      { r with
        current := none
        assembler := (r.assembler.unpackAll b).1
        stats := { r.stats with brokenRecords := r.stats.brokenRecords
          + (r.assembler.unpackAll b).2.countP fun x => !Except.isOk x } }.traverse visit u := by
  obtain ⟨source, verify, key, current, assembler, stats⟩ := r
  simp only at hc hv ⊢
  subst hc
  fun_induction Assembler.unpackAll assembler b generalizing t stats with
  | case1 a b c d x unpacked e xs all ih =>
    rw [List.map_cons] at hv
    obtain ⟨v, hx, hv⟩ := showAll_cons hv
    simp only [all] at ih
    rw [traverse_record (nextRecord_drained (drain_record rfl unpacked)) hx, ih _ hv,
      List.countP_cons_of_neg (by simp [Except.isOk, Except.toBool])]
  | case2 a b c d unpacked =>
    simp only [List.map_nil, showAll, Prod.mk.injEq, and_true] at hv
    subst hv
    exact traverse_congr (nextRecord_exhausted (drain_exhausted rfl unpacked) rfl)
  | case3 a b c d x unpacked f xs all ih =>
    rw [List.map_cons] at hv
    obtain ⟨v, hx, hv⟩ := showAll_cons hv
    simp only [all] at ih
    rw [traverse_damage (nextRecord_drained (drain_error rfl unpacked)) rfl hx, ih _ hv,
      List.countP_cons_of_pos (by simp [Except.isOk, Except.toBool])]
    simp only [Nat.add_assoc, Nat.add_comm 1]

/-- Shows what the next block of the source yields, and goes on behind it. -/
theorem traverse_receive {visit : τ → Finding → τ × Option ε} (r : VolumeReader σ) {t u : τ}
    {source : σ} {raw : RawBlock} (hc : r.current = none)
    (hr : BlockSource.read r.source = (source, .ok (some raw)))
    (hv : showAll visit t (r.receive raw).2 = (u, none)) :
    r.traverse visit t = { (r.receive raw).1 with source }.traverse visit u := by
  have hd : r.drain = (r, none) := by rw [drain, hc]
  have hload : ∃ x, LoadedBlock.load r.verify r.key raw = x := ⟨_, rfl⟩
  obtain ⟨x | b, hload⟩ := hload
  · have hf : r.fetch = ({ (r.receive raw).1 with source }, .failed x) := by
      simp only [fetch, hr, hload, receive]
      simp only [dropPending]
      split <;> rfl
    have hscope := LoadedBlock.scope_of_load hload
    have hn := nextRecord_fetched hd hf
    refine traverse_damage hn hscope ?_
    simp only [receive, hload] at hv
    obtain ⟨v, hx, hv⟩ := showAll_cons hv
    simp only [showAll, Prod.mk.injEq, and_true] at hv
    rw [hx, hv]
  · obtain ⟨found, hfound⟩ : ∃ found, { r with
        source
        stats := { r.stats with blocks := r.stats.blocks + 1 }
        current := some b } = found := ⟨_, rfl⟩
    have hf : r.fetch = (found, .block) := by
      simp only [fetch, hr, hload, ← hfound]
    simp only [receive, hload] at hv
    rw [traverse_congr (nextRecord_fetched hd hf),
      traverse_current found (b := b) (by rw [← hfound]) (by rw [← hfound]; exact hv), ← hfound]
    simp only [receive, hload, hc]

end Unfolding

/-- A visitor that never has enough is shown what all the blocks yield. -/
theorem traverse_yields {visit : τ → Finding → τ × Option ε} {r : VolumeReader σ} {t u : τ}
    {raws : List RawBlock} {source : σ} (hc : r.current = none)
    (hy : BlockSource.Yields r.source raws source)
    (hv : showAll visit t (r.receiveAll raws).2 = (u, none)) :
    r.traverse visit t = (u, r.afterAll raws source, .endOfData) := by
  obtain ⟨first, hfirst⟩ : ∃ first, r.source = first := ⟨_, rfl⟩
  rw [hfirst] at hy
  induction hy generalizing r t with
  | @done s source hread =>
    simp only [receiveAll, showAll, Prod.mk.injEq, and_true] at hv
    subst hv hfirst
    have hd : r.drain = (r, none) := by rw [drain, hc]
    have hf : r.fetch = ({ r with source }.dropPending, .endOfData) := by
      simp only [fetch, hread]
    exact traverse_end (nextRecord_fetched hd hf)
  | @block s next source raw raws hread _ ih =>
    subst hfirst
    rw [receiveAll] at hv
    obtain ⟨v, hraw, hraws⟩ := showAll_append hv
    rw [traverse_receive r hc hread hraw]
    have hrest := ih (r := { (r.receive raw).1 with source := next }) (t := v)
      (by simpa [current_receive] using hc) (by rw [receiveAll_withSource]; exact hraws) rfl
    rw [hrest, afterAll, receiveAll_withSource]
    rfl

/-- What a volume shows is what its blocks yield, one after another. -/
theorem readAll_yields {r : VolumeReader σ} {raws : List RawBlock} {source : σ}
    (hc : r.current = none) (hy : BlockSource.Yields r.source raws source) :
    r.readAll = ((r.receiveAll raws).2, r.afterAll raws source, .endOfData) := by
  refine traverse_yields hc hy ?_
  rw [showAll_keep, List.nil_append]

/-- Visitors that do the same with what they have in common. -/
theorem traverse_map (f : τ → υ) {visit : τ → Finding → τ × Option ε}
    {visit' : υ → Finding → υ × Option ε}
    (hv : ∀ t x, visit' (f t) x = (f (visit t x).1, (visit t x).2)) (t : τ) (r : VolumeReader σ) :
    r.traverse visit' (f t) = (f (r.traverse visit t).1, (r.traverse visit t).2) := by
  fun_induction traverse visit t r with
  | case1 t r s next => exact traverse_end next
  | case2 t r s x next u reason shown =>
    have hx := hv t (.record x)
    rw [shown] at hx
    rw [traverse_eq, next]
    simp only [hx]
  | case3 t r s x next u shown ih =>
    have hx := hv t (.record x)
    rw [shown] at hx
    rw [traverse_record next hx]
    exact ih
  | case4 t r s e next scope u reason shown =>
    have hx := hv t (.damage e)
    rw [shown] at hx
    rw [traverse_eq, next]
    simp only [if_pos scope, hx]
  | case5 t r s e next scope u shown ih =>
    have hx := hv t (.damage e)
    rw [shown] at hx
    rw [traverse_damage next scope hx]
    exact ih
  | case6 t r s e next scope =>
    rw [traverse_eq, next]
    simp only [if_neg scope]

theorem traverse_keep (acc : List Finding) (r : VolumeReader σ) :
    r.traverse keep acc = (acc ++ r.readAll.1, r.readAll.2) := by
  have hkeep (fs : List Finding) (x : Finding) :
      keep (acc ++ fs) x = (acc ++ (keep fs x).1, (keep fs x).2) := by
    rw [keep, keep, List.append_assoc]
  have hall := traverse_map (acc ++ ·) hkeep [] r
  rw [List.append_nil] at hall
  exact hall

section Findings
variable {r s : VolumeReader σ} {x : Record} {e : Failure}

/-- The findings behind the next one are those of the reader that is left. -/
theorem readAll_record (h : r.nextRecord = (s, .ok (some x))) :
    r.readAll = (.record x :: s.readAll.1, s.readAll.2) := by
  rw [readAll, traverse_record h rfl, traverse_keep]
  rfl

theorem readAll_damage (h : r.nextRecord = (s, .error e)) (scope : e.scope = .block) :
    r.readAll = (.damage e :: s.readAll.1, s.readAll.2) := by
  rw [readAll, traverse_damage h scope rfl, traverse_keep]
  rfl

theorem readAll_end (h : r.nextRecord = (s, .ok none)) : r.readAll = ([], s, .endOfData) :=
  traverse_end h

theorem readAll_unreadable (h : r.nextRecord = (s, .error e)) (scope : e.scope ≠ .block) :
    r.readAll = ([], s, .unreadable e) := by
  rw [readAll, traverse_eq, h]
  simp only [if_neg scope]

end Findings

/-- A visitor is shown the findings of a volume one after another, until it has had enough. One that
never has enough is shown all of them, and then reading ends as it does for everyone. -/
theorem traverse_showAll (visit : τ → Finding → τ × Option ε) (t : τ) (r : VolumeReader σ) :
    ∃ s ending, r.traverse visit t = ((showAll visit t r.readAll.1).1, s, ending) ∧
      match (showAll visit t r.readAll.1).2 with
      | some reason => ending = .stopped reason
      | none => s = r.readAll.2.1 ∧ ending = r.readAll.2.2.forEveryone := by
  fun_induction traverse visit t r with
  | case1 t r s next =>
    rw [readAll_end next]
    exact ⟨_, _, rfl, rfl, rfl⟩
  | case2 t r s x next u reason shown =>
    rw [readAll_record next, showAll, shown]
    exact ⟨_, _, rfl, rfl⟩
  | case3 t r s x next u shown ih =>
    rw [readAll_record next, showAll, shown]
    exact ih
  | case4 t r s e next scope u reason shown =>
    rw [readAll_damage next scope, showAll, shown]
    exact ⟨_, _, rfl, rfl⟩
  | case5 t r s e next scope u shown ih =>
    rw [readAll_damage next scope, showAll, shown]
    exact ih
  | case6 t r s e next scope =>
    rw [readAll_unreadable next scope]
    exact ⟨_, _, rfl, rfl, rfl⟩

/-- Visitors that do the same with all findings of a volume go through it alike. -/
theorem traverse_agree {visit visit' : τ → Finding → τ × Option ε} {r : VolumeReader σ} (t : τ)
    (hv : ∀ f ∈ r.readAll.1, ∀ t, visit t f = visit' t f) :
    r.traverse visit t = r.traverse visit' t := by
  fun_induction traverse visit t r with
  | case1 t r s next => exact (traverse_end next).symm
  | case2 t r s x next u reason shown =>
    rw [readAll_record next] at hv
    rw [hv (.record x) (by simp)] at shown
    rw [traverse_eq, next]
    simp only [shown]
  | case3 t r s x next u shown ih =>
    rw [readAll_record next] at hv
    rw [hv (.record x) (by simp)] at shown
    rw [traverse_record next shown]
    exact ih fun f hf => hv f (by simp [hf])
  | case4 t r s e next scope u reason shown =>
    rw [readAll_damage next scope] at hv
    rw [hv (.damage e) (by simp)] at shown
    rw [traverse_eq, next]
    simp only [if_pos scope, shown]
  | case5 t r s e next scope u shown ih =>
    rw [readAll_damage next scope] at hv
    rw [hv (.damage e) (by simp)] at shown
    rw [traverse_damage next scope shown]
    exact ih fun f hf => hv f (by simp [hf])
  | case6 t r s e next scope =>
    rw [traverse_eq, next]
    simp only [if_neg scope]

/-- Damage that is shown is what a call has failed with, and does not keep a reader from going on. -/
theorem exists_of_mem_readAll {r : VolumeReader σ} {e : Failure}
    (h : Finding.damage e ∈ r.readAll.1) :
    ∃ s u : VolumeReader σ, s.nextRecord = (u, .error e) ∧ e.scope = .block := by
  have hkeep (acc : List Finding) (r : VolumeReader σ)
      (h : Finding.damage e ∈ (r.traverse keep acc).1) : Finding.damage e ∈ acc ∨
        ∃ s u : VolumeReader σ, s.nextRecord = (u, .error e) ∧ e.scope = .block := by
    fun_induction traverse keep acc r with
    | case1 acc r s next => exact .inl h
    | case2 acc r s x next u reason shown => exact reason.elim
    | case3 acc r s x next u shown ih =>
      cases shown
      simpa using ih h
    | case4 acc r s x next scope u reason shown => exact reason.elim
    | case5 acc r s x next scope u shown ih =>
      cases shown
      rcases ih h with hacc | hfound
      · rcases List.mem_append.mp hacc with hacc | hacc
        · exact .inl hacc
        · cases List.mem_singleton.mp hacc
          exact .inr ⟨r, s, next, scope⟩
      · exact .inr hfound
    | case6 acc r s x next scope => exact .inl h
  exact (hkeep [] r h).resolve_left (by simp)

theorem scope_of_mem_readAll {r : VolumeReader σ} {e : Failure}
    (h : Finding.damage e ∈ r.readAll.1) : e.scope = .block := by
  obtain ⟨s, u, -, hscope⟩ := exists_of_mem_readAll h
  exact hscope

/-- Reading has failed at some place where it cannot go on. -/
theorem exists_nextRecord {visit : τ → Finding → τ × Option ε} {t : τ} {r : VolumeReader σ}
    {e : Failure} (h : (r.traverse visit t).2.2 = .unreadable e) :
    ∃ s u : VolumeReader σ, s.nextRecord = (u, .error e) ∧ e.scope ≠ .block := by
  fun_induction traverse visit t r with
  | case1 => cases h
  | case2 => cases h
  | case3 t r s x next u shown ih => exact ih h
  | case4 => cases h
  | case5 t r s x next scope u shown ih => exact ih h
  | case6 t r s x next scope =>
    cases h
    exact ⟨r, s, next, scope⟩

end VolumeReader
end BackupVolume
