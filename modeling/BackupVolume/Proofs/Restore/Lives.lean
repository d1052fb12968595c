import BackupVolume.Proofs.Restore.Calls
import BackupVolume.Proofs.Restore.Origins

/-! # The lives of files

A file lives from the attribute record for which it was opened up to the next attribute record, to
data that are encrypted, to a damaged record unless the job is to proceed, or to the end of the job.
Whatever ends the extraction, the calls that a file receives in its life are those that its data
ask for, and it is finished when its life ends, unless a damaged record has made it be abandoned.
-/
namespace BackupVolume

structure Handled where
  record : Record
  decoded : Option (Except Failure Action)
  calls : List FileCall

namespace Handled

def closes (t : Handled) : Bool := t.record.tag.isAttributes || t.record.tag.isOpaqueFileData

def isFault (t : Handled) : Bool :=
  match t.decoded with
  | some (.ok (.fault _)) => true
  | _ => false

def ends (proceed : Bool) (t : Handled) : Bool := t.closes || (!proceed && t.isFault)

def data? (t : Handled) : Option (Option Nat × Bytes) :=
  match t.decoded with
  | some (.ok (.write address data)) => some (address, data)
  | _ => none

def callsOn (n : Nat) (t : Handled) : List FileCall := t.calls.filter fun c => c.file = n

theorem callsOn_eq_nil {n : Nat} {t : Handled} :
    t.callsOn n = [] ↔ ∀ c ∈ t.calls, c.file ≠ n := by
  simp [callsOn, List.filter_eq_nil_iff]

inductive DecodedBy (d : Decoder) (t : Handled) : Decoder → Prop
  | passed : t.decoded = none → t.closes = false →
    (t.record.tag.isFileData || t.record.tag.isDedup) = true → DecodedBy d t d
  | decoded : t.decoded = some (d.decode t.record).2 → DecodedBy d t (d.decode t.record).1

inductive AllDecodedBy (d : Decoder) : List Handled → Decoder → Prop
  | none : AllDecodedBy d [] d
  | more {ts : List Handled} {t : Handled} {e f : Decoder} :
    AllDecodedBy d ts e → t.DecodedBy e f → AllDecodedBy d (ts ++ [t]) f

end Handled

/-- A file has been opened by `first` and filled by the records `between`, none of which has ended
its life. -/
structure Filled (proceed : Bool) (n : Nat) (a : Attributes) (before : List Handled)
    (first : Handled) (between : List Handled) : Prop where
  untouched : ∀ t ∈ before, t.callsOn n = []
  isAttributes : first.record.tag.isAttributes = true
  decoded : first.decoded = some (.ok (.attributes a))
  opened : first.callsOn n = [.opened n a]
  lasting : ∀ t ∈ between, t.ends proceed = false ∧ t.decoded.isSome = true
  filled : between.flatMap Handled.calls = transfers n 0 (between.filterMap Handled.data?)

/-- The life of a file, by the records that have been worked on and the calls behind them: it lasts
up to the end of the job, or up to a record that ends it. -/
inductive Life (proceed : Bool) (n : Nat) (ts : List Handled) (final : List FileCall) : Prop
  | whole {a : Attributes} {before between : List Handled} {first : Handled} :
    ts = before ++ first :: between → Filled proceed n a before first between →
      final = [.finished n a] → Life proceed n ts final
  | ended {a : Attributes} {before between after : List Handled} {first last : Handled} :
    ts = before ++ first :: (between ++ last :: after) →
      Filled proceed n a before first between → last.ends proceed = true →
      last.callsOn n = (if last.closes then [.finished n a] else []) →
      (∀ t ∈ after, t.callsOn n = []) → (∀ c ∈ final, c.file ≠ n) → Life proceed n ts final

theorem Life.snoc {proceed : Bool} {n : Nat} {ts : List Handled}
    (h : Life proceed n ts []) {t : Handled} (ht : t.callsOn n = []) :
    Life proceed n (ts ++ [t]) [] := by
  cases h with
  | whole _ _ hfinal => cases hfinal
  | @ended a before between after first last hsplit hfilled hends hlast hafter hfinal =>
    have hsnoc : ts ++ [t] = before ++ first :: (between ++ last :: (after ++ [t])) := by
      rw [hsplit, List.append_assoc, List.cons_append, List.append_assoc, List.cons_append]
    refine .ended hsnoc hfilled hends hlast (fun u hu => ?_) hfinal
    rcases List.mem_append.mp hu with hu | hu
    · exact hafter u hu
    · obtain rfl := List.mem_singleton.mp hu
      exact ht

theorem Life.closed {proceed : Bool} {n : Nat} {ts : List Handled}
    (h : Life proceed n ts []) {final : List FileCall} (hf : ∀ c ∈ final, c.file ≠ n) :
    Life proceed n ts final := by
  cases h with
  | whole _ _ hfinal => cases hfinal
  | ended hsplit hfilled hends hlast hafter => exact .ended hsplit hfilled hends hlast hafter hf

namespace FileLedger

inductive Takes (proceed : Bool) (b : FileLedger) (t : Handled) : FileLedger → Prop
  | closes : t.closes = true → t.calls = b.closing → Takes proceed b t b.closed
  | opens {a : Attributes} : t.record.tag.isAttributes = true →
    t.decoded = some (.ok (.attributes a)) → t.calls = b.closing ++ [.opened b.files a] →
      Takes proceed b t (b.closed.opened a)
  | fills : t.ends proceed = false → (t.decoded = none → b.current = none) →
    t.calls = b.filling t.data?.toList → Takes proceed b t (b.filled t.data?.toList)
  | abandons : t.closes = false → t.ends proceed = true → t.calls = [] →
    Takes proceed b t b.abandoned

/-- A record that neither has data for the open file nor ends its life leaves the ledger alone. -/
theorem Takes.of_data?_eq_none {proceed : Bool} {b : FileLedger} {t : Handled}
    (hends : t.ends proceed = false) (hpassed : t.decoded = none → b.current = none)
    (hdata : t.data? = none) (hcalls : t.calls = []) : b.Takes proceed t b := by
  have hfills : b.Takes proceed t (b.filled t.data?.toList) := by
    refine .fills hends hpassed ?_
    rw [hcalls, hdata, Option.toList_none, filling_nil]
  rwa [hdata, Option.toList_none, filled_nil] at hfills

structure Orderly (calls : List FileCall) (files : Nat) : Prop where
  bounded : ∀ c ∈ calls, c.file < files
  ordered : calls.Pairwise fun c d => c.file ≤ d.file

/-- At any time at most one file has received calls and is still to receive some. -/
def OneAtATime (calls : List FileCall) : Prop :=
  ∀ past future, calls = past ++ future → ∀ c ∈ past, ∀ d ∈ past,
    (∃ x ∈ future, x.file = c.file) → (∃ y ∈ future, y.file = d.file) → c.file = d.file

theorem Orderly.oneAtATime {calls : List FileCall} {files : Nat} (h : Orderly calls files) :
    OneAtATime calls := by
  rintro past future rfl c hc d hd ⟨x, hx, hxc⟩ ⟨y, hy, hyd⟩
  have hacross := (List.pairwise_append.mp h.ordered).2.2
  have hforth := hacross c hc y hy
  have hback := hacross d hd x hx
  omega

theorem Orderly.append {calls : List FileCall} {files : Nat} (h : Orderly calls files)
    {new : List FileCall} (hnew : ∀ c ∈ new, c.file + 1 = files) :
    Orderly (calls ++ new) files where
  bounded c hc := by
    rcases List.mem_append.mp hc with hc | hc
    · exact h.bounded c hc
    · have hfile := hnew c hc
      omega
  ordered := by
    refine List.pairwise_append.mpr ⟨h.ordered, List.pairwise_of_forall_mem_list ?_, ?_⟩
    · intro c hc d hd
      have hfirst := hnew c hc
      have hsecond := hnew d hd
      omega
    · intro c hc d hd
      have hfirst := h.bounded c hc
      have hsecond := hnew d hd
      omega

theorem Orderly.opened {calls : List FileCall} {files : Nat} (h : Orderly calls files)
    (a : Attributes) : Orderly (calls ++ [.opened files a]) (files + 1) := by
  refine Orderly.append ⟨fun c hc => ?_, h.ordered⟩ fun c hc => ?_
  · exact Nat.lt_succ_of_lt (h.bounded c hc)
  · obtain rfl := List.mem_singleton.mp hc
    rfl

def IsOpen (b : FileLedger) (n : Nat) : Prop := ∃ f, b.current = some f ∧ f.handle = n

structure Accounts (proceed : Bool) (ts : List Handled) (b : FileLedger) : Prop where
  calls : b.calls = ts.flatMap Handled.calls
  orderly : Orderly b.calls b.files
  current : ∀ f, b.current = some f → f.handle + 1 = b.files ∧
    ∃ before first between, ts = before ++ first :: between ∧
      Filled proceed f.handle f.attributes before first between ∧
      f.address = (between.filterMap Handled.data?).foldl addressBehind 0
  ended : ∀ n < b.files, ¬b.IsOpen n → Life proceed n ts []

variable {proceed : Bool} {ts : List Handled} {t : Handled} {b c : FileLedger}

theorem isOpen_of_mem_closing {x : FileCall} (h : x ∈ b.closing) : b.IsOpen x.file := by
  unfold closing at h
  split at h
  · cases h
  · next f hf =>
    obtain rfl := List.mem_singleton.mp h
    exact ⟨f, hf, rfl⟩

theorem isOpen_of_mem_filling {x : FileCall} {xs : List (Option Nat × Bytes)}
    (h : x ∈ b.filling xs) : b.IsOpen x.file := by
  unfold filling at h
  split at h
  · cases h
  · next f hf => exact ⟨f, hf, (file_of_mem_transfers h).symm⟩

theorem IsOpen.filled {n : Nat} (h : b.IsOpen n) (xs : List (Option Nat × Bytes)) :
    (b.filled xs).IsOpen n := by
  obtain ⟨f, hf, rfl⟩ := h
  exact ⟨{ f with address := xs.foldl addressBehind f.address },
    by rw [FileLedger.filled, hf, Option.map_some], rfl⟩

namespace Accounts

theorem nil : Accounts proceed [] {} where
  calls := rfl
  orderly := ⟨fun _ hc => (List.not_mem_nil hc).elim, .nil⟩
  current _ hf := by cases hf
  ended _ hn := (Nat.not_lt_zero _ hn).elim

theorem calls_snoc (h : Accounts proceed ts b) (t : Handled) :
    b.calls ++ t.calls = (ts ++ [t]).flatMap Handled.calls := by
  rw [h.calls, List.flatMap_append, List.flatMap_singleton]

/-- The open file is the last one. -/
theorem last_of_isOpen (h : Accounts proceed ts b) {n : Nat} (hn : b.IsOpen n) :
    n + 1 = b.files := by
  obtain ⟨f, hf, rfl⟩ := hn
  exact (h.current f hf).1

/-- Files that have not been opened have received no calls. -/
theorem untouched (h : Accounts proceed ts b) : ∀ t ∈ ts, t.callsOn b.files = [] := by
  intro t ht
  refine Handled.callsOn_eq_nil.mpr fun c hc => Nat.ne_of_lt (h.orderly.bounded c ?_)
  rw [h.calls]
  exact List.mem_flatMap.mpr ⟨t, ht, hc⟩

/-- A record that ends the life of the open file. -/
theorem ended_current (h : Accounts proceed ts b) {f : OpenFile Nat} (hf : b.current = some f)
    (hends : t.ends proceed = true)
    (ht : t.callsOn f.handle = if t.closes then [.finished f.handle f.attributes] else []) :
    Life proceed f.handle (ts ++ [t]) [] := by
  obtain ⟨-, before, first, between, hsplit, hfilled, -⟩ := h.current f hf
  have hsnoc : ts ++ [t] = before ++ first :: (between ++ t :: []) := by
    rw [hsplit, List.append_assoc, List.cons_append]
  exact .ended hsnoc hfilled hends ht (fun _ hu => by cases hu) fun _ hx => by cases hx

/-- A record that closes the open file ends its life, also when it opens the next one. -/
theorem ended_closed (h : Accounts proceed ts b) (hcloses : t.closes = true)
    {opening : List FileCall} (hcalls : t.calls = b.closing ++ opening)
    (hopening : ∀ x ∈ opening, x.file = b.files) {n : Nat} (hn : n < b.files) :
    Life proceed n (ts ++ [t]) [] := by
  have hon : t.callsOn n = b.closing.filter fun x => x.file = n := by
    have hothers : opening.filter (fun x => x.file = n) = [] := by
      refine List.filter_eq_nil_iff.mpr fun x hx => ?_
      rw [decide_eq_true_eq, hopening x hx]
      exact Nat.ne_of_gt hn
    rw [Handled.callsOn, hcalls, List.filter_append, hothers, List.append_nil]
  by_cases hopen : b.IsOpen n
  · obtain ⟨f, hf, rfl⟩ := hopen
    refine h.ended_current hf (by rw [Handled.ends, hcloses, Bool.true_or]) ?_
    rw [hon, hcloses, closing, hf]
    simp [FileCall.file]
  · refine (h.ended n hn hopen).snoc ?_
    rw [hon]
    refine List.filter_eq_nil_iff.mpr fun x hx => ?_
    rw [decide_eq_true_eq]
    exact fun heq => hopen (heq ▸ isOpen_of_mem_closing hx)

theorem closes (h : Accounts proceed ts b) (hcloses : t.closes = true)
    (hcalls : t.calls = b.closing) : Accounts proceed (ts ++ [t]) b.closed where
  calls := by rw [closed, ← hcalls, h.calls_snoc]
  orderly := h.orderly.append fun _ hx => h.last_of_isOpen (isOpen_of_mem_closing hx)
  current _ hf := by cases hf
  ended _ hn _ :=
    h.ended_closed hcloses (by rw [hcalls, List.append_nil]) (fun _ hx => by cases hx) hn

theorem opens (h : Accounts proceed ts b) {a : Attributes}
    (ha : t.record.tag.isAttributes = true) (hdecoded : t.decoded = some (.ok (.attributes a)))
    (hcalls : t.calls = b.closing ++ [.opened b.files a]) :
    Accounts proceed (ts ++ [t]) (b.closed.opened a) where
  calls := by
    rw [← h.calls_snoc, hcalls, ← List.append_assoc]
    rfl
  orderly := (h.orderly.append fun _ hx => h.last_of_isOpen (isOpen_of_mem_closing hx)).opened a
  current f hf := by
    cases hf
    have hon : t.callsOn b.files = [.opened b.files a] := by
      have hclosing : b.closing.filter (fun x => x.file = b.files) = [] := by
        refine List.filter_eq_nil_iff.mpr fun x hx => ?_
        have hlast := h.last_of_isOpen (isOpen_of_mem_closing hx)
        rw [decide_eq_true_eq]
        omega
      rw [Handled.callsOn, hcalls, List.filter_append, hclosing, List.nil_append]
      simp [FileCall.file]
    exact ⟨rfl, ts, t, [], rfl,
      ⟨h.untouched, ha, hdecoded, hon, fun _ hu => (List.not_mem_nil hu).elim, rfl⟩, rfl⟩
  ended n hn hopen := by
    have hcloses : t.closes = true := by rw [Handled.closes, ha, Bool.true_or]
    refine h.ended_closed hcloses hcalls (fun x hx => ?_) ?_
    · obtain rfl := List.mem_singleton.mp hx
      rfl
    · have hne : b.files ≠ n := fun heq => hopen ⟨_, rfl, heq⟩
      have hle : n < b.files + 1 := hn
      omega

theorem fills (h : Accounts proceed ts b) (hends : t.ends proceed = false)
    (hpassed : t.decoded = none → b.current = none)
    (hcalls : t.calls = b.filling t.data?.toList) :
    Accounts proceed (ts ++ [t]) (b.filled t.data?.toList) where
  calls := by rw [filled, ← hcalls, h.calls_snoc]
  orderly := h.orderly.append fun _ hx => h.last_of_isOpen (isOpen_of_mem_filling hx)
  current g hg := by
    obtain ⟨f, hf, rfl⟩ := Option.map_eq_some_iff.mp hg
    obtain ⟨hlast, before, first, between, hsplit, hfilled, haddress⟩ := h.current f hf
    have hdata : (between ++ [t]).filterMap Handled.data?
        = between.filterMap Handled.data? ++ t.data?.toList := by
      rw [List.filterMap_append, List.filterMap_cons]
      cases t.data? <;> rfl
    refine ⟨hlast, before, first, between ++ [t], ?_, { hfilled with
      lasting := ?_
      filled := ?_ }, ?_⟩
    · rw [hsplit, List.append_assoc, List.cons_append]
    · intro u hu
      rcases List.mem_append.mp hu with hu | hu
      · exact hfilled.lasting u hu
      · obtain rfl := List.mem_singleton.mp hu
        refine ⟨hends, Option.isSome_iff_ne_none.mpr fun hnone => ?_⟩
        cases (hpassed hnone).symm.trans hf
    · rw [hdata, transfers_append, List.flatMap_append, List.flatMap_singleton, hcalls, filling,
        hf, hfilled.filled, ← haddress]
    · rw [hdata, List.foldl_append, haddress]
  ended n hn hopen := by
    refine (h.ended n hn fun ho => hopen (ho.filled _)).snoc ?_
    refine Handled.callsOn_eq_nil.mpr fun x hx heq => hopen ?_
    rw [hcalls] at hx
    exact heq ▸ (isOpen_of_mem_filling hx).filled _

theorem abandons (h : Accounts proceed ts b) (hcloses : t.closes = false)
    (hends : t.ends proceed = true) (hcalls : t.calls = []) :
    Accounts proceed (ts ++ [t]) b.abandoned where
  calls := by rw [← h.calls_snoc, hcalls, List.append_nil, abandoned]
  orderly := h.orderly
  current _ hf := by cases hf
  ended n hn _ := by
    have hon : t.callsOn n = [] := by rw [Handled.callsOn, hcalls, List.filter_nil]
    by_cases hopen : b.IsOpen n
    · obtain ⟨f, hf, rfl⟩ := hopen
      exact h.ended_current hf hends (by rw [hon, hcloses]; rfl)
    · exact (h.ended n hn hopen).snoc hon

/-- One more record is accounted for. -/
theorem takes (h : Accounts proceed ts b) (ht : b.Takes proceed t c) :
    Accounts proceed (ts ++ [t]) c := by
  cases ht with
  | closes hcloses hcalls => exact h.closes hcloses hcalls
  | opens ha hdecoded hcalls => exact h.opens ha hdecoded hcalls
  | fills hends hpassed hcalls => exact h.fills hends hpassed hcalls
  | abandons hcloses hends hcalls => exact h.abandons hcloses hends hcalls

/-- When the last file has been closed, the lives of all files have ended. -/
theorem life (h : Accounts proceed ts b) {n : Nat} (hn : n < b.files) :
    Life proceed n ts b.closing := by
  by_cases hopen : b.IsOpen n
  · obtain ⟨f, hf, rfl⟩ := hopen
    obtain ⟨-, before, first, between, hsplit, hfilled, -⟩ := h.current f hf
    exact .whole hsplit hfilled (by rw [closing, hf])
  · exact (h.ended n hn hopen).closed fun x hx heq => hopen (heq ▸ isOpen_of_mem_closing hx)

end Accounts
end FileLedger

namespace Extraction
variable {σ φ η : Type} [FileCreator φ η] {j : State (Called φ) (η × Nat)} {r : Record}
  {action : Action} {d : Decoder}

/-- What a decoded record does that has closed the open file. -/
theorem takes_perform_closed (ho : FileCreator.Obliging φ) (o : JobOptions)
    (filter : Selection.PathFilter) (hr : d.Decodes r action) {b : FileLedger}
    (hj : j.work.ledger = b.closed)
    (hcloses : (r.tag.isAttributes || r.tag.isOpaqueFileData) = true) :
    ∃ k calls, perform o filter j action = (k, .ok ()) ∧
      b.Takes o.proceed ⟨r, some (.ok action), calls⟩ k.work.ledger ∧
      k.work.decoder = j.work.decoder ∧ k.counts.records = j.counts.records := by
  cases action with
  | attributes a =>
    obtain ⟨hledger | hledger, hdecoder, hrecords⟩ := ledger_openFile o filter j a
    · refine ⟨_, b.closing, rfl, ?_, hdecoder, hrecords⟩
      rw [hledger, hj]
      exact .closes hcloses rfl
    · refine ⟨_, b.closing ++ [.opened b.files a], rfl, ?_, hdecoder, hrecords⟩
      rw [hledger, hj]
      exact .opens hr.isAttributes rfl rfl
  | write address data =>
    obtain ⟨k, hwrite, hledger, hdecoder, hrecords⟩ := ledger_write ho j address data
    refine ⟨k, b.closing, hwrite, ?_, hdecoder, hrecords⟩
    rw [hledger, hj, FileLedger.filled_of_none rfl]
    exact .closes hcloses rfl
  | nothing =>
    refine ⟨j, b.closing, rfl, ?_, rfl, rfl⟩
    rw [hj]
    exact .closes hcloses rfl
  | fault f =>
    rw [perform]
    split
    · refine ⟨j, b.closing, rfl, ?_, rfl, rfl⟩
      rw [hj]
      exact .closes hcloses rfl
    · have hledger : ({ j.work with opened := none } : Extraction (Called φ) (η × Nat)).ledger
          = b.closed := congrArg FileLedger.abandoned hj
      refine ⟨_, b.closing, rfl, ?_, rfl, rfl⟩
      rw [hledger]
      exact .closes hcloses rfl

/-- What a decoded record does that does not close the open file: it opens none. -/
theorem takes_perform (ho : FileCreator.Obliging φ) (o : JobOptions)
    (filter : Selection.PathFilter) (hr : d.Decodes r action)
    (hcloses : (r.tag.isAttributes || r.tag.isOpaqueFileData) = false) :
    ∃ k calls, perform o filter j action = (k, .ok ()) ∧
      j.work.ledger.Takes o.proceed ⟨r, some (.ok action), calls⟩ k.work.ledger ∧
      k.work.decoder = j.work.decoder ∧ k.counts.records = j.counts.records := by
  cases action with
  | attributes a =>
    rw [hr.isAttributes] at hcloses
    cases hcloses
  | write address data =>
    obtain ⟨k, hwrite, hledger, hdecoder, hrecords⟩ := ledger_write ho j address data
    refine ⟨k, j.work.ledger.filling [(address, data)], hwrite, ?_, hdecoder, hrecords⟩
    rw [hledger]
    refine .fills ?_ (fun hpassed => by cases hpassed) rfl
    rw [Handled.ends, Handled.closes, hcloses]
    exact Bool.and_false _
  | nothing =>
    refine ⟨j, [], rfl, .of_data?_eq_none ?_ (fun hpassed => by cases hpassed) rfl rfl, rfl, rfl⟩
    rw [Handled.ends, Handled.closes, hcloses]
    exact Bool.and_false _
  | fault f =>
    rw [perform]
    split
    · next hproceed =>
      refine ⟨j, [], rfl, .of_data?_eq_none ?_ (fun hpassed => by cases hpassed) rfl rfl, rfl, rfl⟩
      rw [Handled.ends, Handled.closes, hcloses, hproceed]
      rfl
    · next hproceed =>
      refine ⟨_, [], rfl, .abandons hcloses ?_ rfl, rfl, rfl⟩
      rw [Handled.ends, Handled.isFault, Bool.eq_false_iff.mpr hproceed]
      exact Bool.or_true _

/-- Every record is passed over, or decoded and performed. -/
theorem takes_handle (ho : FileCreator.Obliging φ) (o : JobOptions)
    (filter : Selection.PathFilter) (j : State (Called φ) (η × Nat)) (r : Record) :
    ∃ k x t, handle o filter j r = (k, x) ∧ t.record = r ∧
      t.DecodedBy j.work.decoder k.work.decoder ∧
      j.work.ledger.Takes o.proceed t k.work.ledger ∧ k.counts.records = j.counts.records := by
  have hby {d e : Decoder} {x : Except Failure Action} (h : d.decode r = (e, x))
      (calls : List FileCall) : (Handled.mk r (some x) calls).DecodedBy d e := by
    have hdecoded := Handled.DecodedBy.decoded (t := ⟨r, some x, calls⟩) (d := d) (by rw [h])
    rwa [h] at hdecoded
  rw [handle]
  split
  · next hcloses =>
    obtain ⟨k, hclose, hledger, hdecoder, hcounts⟩ := ledger_close ho j
    rw [hclose, ← hdecoder, ← hcounts]
    simp only [decode]
    rcases hdecode : k.work.decoder.decode r with ⟨d, e | action⟩
    · refine ⟨_, _, ⟨r, some (.error e), j.work.ledger.closing⟩, rfl, rfl, hby hdecode _, ?_, rfl⟩
      exact hledger ▸ .closes hcloses rfl
    · obtain ⟨l, calls, hperform, htakes, hl, hrecords⟩ := takes_perform_closed ho o filter
        (j := { k with work := { k.work with decoder := d } })
        ⟨_, .refl _, congrArg Prod.snd hdecode⟩ hledger hcloses
      exact ⟨l, _, _, hperform, rfl, hl ▸ hby hdecode calls, htakes, hrecords⟩
  · next hcloses =>
    rw [Bool.not_eq_true] at hcloses
    split
    · next hpassed =>
      rw [Bool.and_eq_true, Bool.and_eq_true, Option.isNone_iff_eq_none] at hpassed
      refine ⟨j, _, ⟨r, none, []⟩, rfl, rfl, .passed rfl hcloses hpassed.2, ?_, rfl⟩
      refine .of_data?_eq_none ?_ (fun _ => ?_) rfl rfl
      · rw [Handled.ends, Handled.closes, hcloses]
        exact Bool.and_false _
      · rw [ledger, hpassed.1.2, Option.map_none]
    · simp only [decode]
      rcases hdecode : j.work.decoder.decode r with ⟨d, e | action⟩
      · refine ⟨_, _, ⟨r, some (.error e), []⟩, rfl, rfl, hby hdecode _, ?_, rfl⟩
        refine .of_data?_eq_none ?_ (fun hnone => by cases hnone) rfl rfl
        rw [Handled.ends, Handled.closes, hcloses]
        exact Bool.and_false _
      · obtain ⟨l, calls, hperform, htakes, hl, hrecords⟩ := takes_perform ho o filter
          (j := { j with work := { j.work with decoder := d } })
          ⟨_, .refl _, congrArg Prod.snd hdecode⟩ hcloses
        exact ⟨l, _, _, hperform, rfl, hl ▸ hby hdecode calls, htakes, hrecords⟩

/-- Whatever records have been worked on, they account for all calls on files. -/
theorem exists_accounts_ledger (ho : FileCreator.Obliging φ) {o : JobOptions}
    {filter : Selection.PathFilter} {decoder : Decoder} {creator : φ} {rs : List Record}
    {w : Extraction (Called φ) (η × Nat)}
    (h : Job.Worked (handle o filter) { creator := { creator }, decoder } rs w) :
    ∃ ts : List Handled, ts.map Handled.record = rs ∧ Handled.AllDecodedBy decoder ts w.decoder ∧
      FileLedger.Accounts o.proceed ts w.ledger := by
  induction h with
  | none => exact ⟨[], rfl, .none, .nil⟩
  | @more rs r j k x _ hhandle ih =>
    obtain ⟨ts, hrecords, hdecoded, haccounts⟩ := ih
    obtain ⟨k', x', t, hhandle', hrecord, hby, htakes, -⟩ := takes_handle ho o filter j r
    cases hhandle.symm.trans hhandle'
    refine ⟨ts ++ [t], ?_, hdecoded.more hby, haccounts.takes htakes⟩
    rw [List.map_append, hrecords, List.map_singleton, hrecord]

/-- Whatever ends an extraction, the records that it has worked on account for all calls on files,
one file after another: while a file lives no other one receives a call, and outside of its life it
receives none. -/
theorem lives_run [BlockSource σ] (ho : FileCreator.Obliging φ) (o : JobOptions) (rules : Rules)
    (filter : Selection.PathFilter) (decoder : Decoder) (key : Option VolumeKey) (creator : φ)
    (source : σ) :
    let reader : VolumeReader σ := { source, verify := o.verifyChecksums, key }
    let admitted := (Finding.records reader.readAll.1).filter rules.admits
    let outcome := run o rules filter decoder key ({ creator } : Called φ) source
    run o rules filter decoder key creator source
        = { outcome with creator := outcome.creator.creator } ∧
      ∃ (ts : List Handled) (e : Decoder) (final : List FileCall),
        ts.map Handled.record <+: admitted ∧ (summaryOf outcome.result).records = ts.length ∧
        Handled.AllDecodedBy decoder ts e ∧
        outcome.creator.calls = ts.flatMap Handled.calls ++ final ∧
        FileLedger.Orderly outcome.creator.calls outcome.creator.files ∧
        FileLedger.OneAtATime outcome.creator.calls ∧
        ∀ n < outcome.creator.files, Life o.proceed n ts final := by
  intro reader admitted outcome
  have hplain := run_map Called.uncalled o rules filter decoder key ({ creator } : Called φ) source
  obtain ⟨j, s, x, hjob⟩ : ∃ j s x, Job.run o.proceed rules (handle o filter)
    { creator := ({ creator } : Called φ), decoder } reader = (j, s, x) := ⟨_, _, _, rfl⟩
  have hcount (j : State (Called φ) (η × Nat)) (r : Record) :
      (handle o filter j r).1.counts.records = j.counts.records := by
    obtain ⟨k, x, t, hhandle, -, -, -, hrecords⟩ := takes_handle ho o filter j r
    rw [hhandle, hrecords]
  obtain ⟨rs, hadmitted, hended, hworked⟩ := Job.exists_ended hcount hjob
  obtain ⟨ts, hrecords, hdecoded, haccounts⟩ := exists_accounts_ledger ho hended.worked
  obtain ⟨k, hclose, hledger, -, hcounts⟩ := ledger_close ho j
  have hcreator : outcome.creator = k.work.creator := by
    simp only [outcome, run]
    rw [hjob, hclose]
  have hcalls : outcome.creator.calls = j.work.ledger.calls ++ j.work.ledger.closing := by
    rw [hcreator]
    exact congrArg FileLedger.calls hledger
  have hfiles : outcome.creator.files = j.work.ledger.files := by
    rw [hcreator]
    exact congrArg FileLedger.files hledger
  have horderly : FileLedger.Orderly outcome.creator.calls outcome.creator.files := by
    rw [hcalls, hfiles]
    exact haccounts.orderly.append fun c hc =>
      haccounts.last_of_isOpen (FileLedger.isOpen_of_mem_closing hc)
  refine ⟨hplain, ts, j.work.decoder, j.work.ledger.closing, ?_, ?_, hdecoded, ?_, horderly,
    horderly.oneAtATime, ?_⟩
  · rw [hrecords]
    exact hadmitted
  · simp only [outcome, run, Job.records_summaryOf_result]
    rw [hjob, hclose]
    simp only [hcounts, hworked, ← hrecords, List.length_map]
  · rw [hcalls, haccounts.calls]
  · rw [hfiles]
    exact fun n hn => haccounts.life hn

/-- Four files. The first one is filled at the last address of all and at the first one; its life ends
with the description of the second file, the life of that one with encrypted data, and that of the
third one with data whose address is cut off. -/
def fourFiles : List Record :=
  [describing 1 49 97, ⟨1, ⟨0x2002⟩, withAddress (2 ^ 64 - 1) [1], {}, 0⟩,
    ⟨1, ⟨0x2002⟩, withAddress 0 [2], {}, 0⟩, describing 2 50 98, filling 2 [3] 0,
    ⟨2, ⟨20⟩, [4], {}, 0⟩, filling 2 [5] 0, describing 3 51 99, filling 3 [6] 0,
    ⟨3, ⟨0x2002⟩, [7], {}, 0⟩, filling 3 [8] 0, describing 4 52 100]

theorem receive_fourFiles (source : MemoryVolume) :
    ({ source } : VolumeReader MemoryVolume).receive ⟨0, clearBlock 0 (fourFiles.map wholePiece)⟩
      = ({ source, assembler := { records := 12 }, stats := { blocks := 1 } },
        fourFiles.map .record) :=
  VolumeReader.receive_clearBlock rfl (by decide) (by decide +kernel) (by decide +kernel) fourFiles
    rfl 0

/-- The first file is moved to the last address, and behind it the address that is kept is the first
one, so that no seek follows. The third file is never finished. -/
theorem lives_run_memory :
    let source : MemoryVolume :=
      .ofBlocks "volume" [clearBlock 0 (fourFiles.map wholePiece)]
    let c := (run {} {} {} (Decoder.create {}) none ({ creator := .accepting } : Called Accepting)
      source).creator
    let file (n : Int32) (name : String) : Attributes := ⟨n, 3, name, {}, "", "", 0⟩
    FileCreator.Obliging Accepting ∧ c.files = 4 ∧
      c.calls = [.opened 0 (file 1 "a"), .sought 0 (2 ^ 64 - 1), .wrote 0 [1], .wrote 0 [2],
        .finished 0 (file 1 "a"), .opened 1 (file 2 "b"), .wrote 1 [3], .finished 1 (file 2 "b"),
        .opened 2 (file 3 "c"), .wrote 2 [6], .opened 3 (file 4 "d"), .finished 3 (file 4 "d")] ∧
      ∃ ts final, c.calls = ts.flatMap Handled.calls ++ final ∧
        ∀ n < 4, Life false n ts final := by
  intro source c file
  have ho : FileCreator.Obliging Accepting :=
    ⟨fun _ _ _ => ⟨_, _, rfl⟩, fun _ _ _ => ⟨_, _, rfl⟩, fun _ _ _ => ⟨_, rfl⟩⟩
  obtain ⟨s, hread, -⟩ := VolumeReader.readAll_oneBlock "volume" receive_fourFiles
  have hcreator : c = _ := creator_run_of_readAll rfl hread
    (Prod.ext rfl (Option.isNone_iff_eq_none.mp (by decide +kernel)))
  have hfiles : c.files = 4 := by
    rw [hcreator]
    decide +kernel
  have hcalls : c.calls = [.opened 0 (file 1 "a"), .sought 0 (2 ^ 64 - 1), .wrote 0 [1],
      .wrote 0 [2], .finished 0 (file 1 "a"), .opened 1 (file 2 "b"), .wrote 1 [3],
      .finished 1 (file 2 "b"), .opened 2 (file 3 "c"), .wrote 2 [6], .opened 3 (file 4 "d"),
      .finished 3 (file 4 "d")] := by
    rw [hcreator]
    decide +kernel
  obtain ⟨-, ts, -, final, -, -, -, hall, -, -, hlives⟩ :=
    lives_run ho {} {} {} (Decoder.create {}) none Accepting.accepting source
  exact ⟨ho, hfiles, hcalls, ts, final, hall, fun n hn => hlives n (hfiles.symm ▸ hn)⟩

end Extraction
end BackupVolume
