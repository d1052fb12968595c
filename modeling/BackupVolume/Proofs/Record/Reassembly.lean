import BackupVolume.Record.Assembly

/-! # Where the octets of a record come from

An assembler is fed any blocks whatsoever, as a list of loaded blocks. It is called on each block
until the block is exhausted, behind every broken record as well. Each record it hands out is made
of the octets behind certain headers of the blocks, and no two records share any of them.
-/
namespace BackupVolume

structure Call where
  index : Nat
  before : LoadedBlock
  after : LoadedBlock
  state : Assembler
  outcome : Except RecordError Unpacked

def Call.record? (c : Call) : Option Record :=
  match c.outcome with
  | .ok (.record r) => some r
  | _ => none

def Call.records (cs : List Call) : List Record := cs.filterMap Call.record?

namespace Assembler

def callsOn (a : Assembler) (i : Nat) (b : LoadedBlock) : Assembler × List Call :=
  match _unpacked : a.unpack b with
  | (c, d, .ok .exhausted) => (c, [⟨i, b, d, c, .ok .exhausted⟩])
  | (c, d, .ok (.record r)) =>
    let (e, cs) := callsOn c i d
    (e, ⟨i, b, d, c, .ok (.record r)⟩ :: cs)
  | (c, d, .error x) =>
    let (e, cs) := callsOn c i d
    (e, ⟨i, b, d, c, .error x⟩ :: cs)
termination_by (b.rest.length, if a.isPending then 1 else 0)
decreasing_by
  · exact Prod.Lex.left _ _ (rest_lt_of_unpack _unpacked)
  · obtain ⟨rfl, waits, rfl⟩ := eq_of_unpack_error _unpacked
    apply Prod.Lex.right
    simp only [waits, if_true]
    exact Nat.one_pos

def callsFrom (a : Assembler) (i : Nat) : List LoadedBlock → Assembler × List Call
  | [] => (a, [])
  | b :: bs =>
    let (c, cs) := a.callsOn i b
    let (d, ds) := c.callsFrom (i + 1) bs
    (d, cs ++ ds)

def calls (blocks : List LoadedBlock) : Assembler × List Call := callsFrom {} 0 blocks

end Assembler

/-- A place in one of the blocks where a header starts. -/
structure Place where
  index : Nat
  block : LoadedBlock
  start : Nat

namespace Place

def dataStart (p : Place) : Nat := p.start + p.block.layout.recordHeaderLength

def head (p : Place) : PieceHeader :=
  .ofBytes p.block.layout p.block.session
    (p.block.rest.slice p.start p.block.layout.recordHeaderLength)

def data (p : Place) : Bytes := p.block.rest.slice p.dataStart p.head.outstanding.toNat

def stop (p : Place) : Nat := p.dataStart + p.data.length

def IsIn (blocks : List LoadedBlock) (p : Place) : Prop :=
  blocks[p.index]? = some p.block ∧ p.dataStart ≤ p.block.rest.length

def EndsBefore (p : Place) (i start : Nat) : Prop := p.index < i ∨ p.index = i ∧ p.stop ≤ start

def Before (p q : Place) : Prop := p.EndsBefore q.index q.start

theorem isIn_of_long {blocks : List LoadedBlock} {i start : Nat} {b : LoadedBlock}
    (hb : blocks[i]? = some b)
    (long : ¬((b.drop start).rest.take b.layout.recordHeaderLength).length
      < b.layout.recordHeaderLength) : (⟨i, b, start⟩ : Place).IsIn blocks := by
  have hpos := b.layout.recordHeaderLength_pos
  refine ⟨hb, ?_⟩
  simp only [LoadedBlock.drop, List.length_take, List.length_drop] at long
  simp only [dataStart]
  omega

end Place

/-- The blocks between those of `ps` and block number `i` are too short for a header. -/
def SkipsOnlyShort (blocks : List LoadedBlock) (ps : List Place) (i : Nat) : Prop :=
  ∀ j b, blocks[j]? = some b → (∀ p ∈ ps, p.index < j) → j < i →
    b.rest.length < b.layout.recordHeaderLength

/-- The octets `data` are those of a record with first header `h`, from block number `number` on,
that are found at `places`: behind `h`, and behind the leading headers of later blocks which have
the same file index and the continuation tag and announce the octets still outstanding. -/
inductive Gathers (blocks : List LoadedBlock) : (h : PieceHeader) → (number : UInt32) →
    (data : Bytes) → (places : List Place) → Prop
  | first {p : Place} (inside : p.IsIn blocks) (starts : 0 ≤ p.head.tag.raw) :
      Gathers blocks p.head p.block.number p.data [p]
  | later {h : PieceHeader} {number : UInt32} {data : Bytes} {ps : List Place} {p : Place}
      (gathered : Gathers blocks h number data ps) (inside : p.IsIn blocks)
      (leading : p.start = 0) (follows : ∀ q ∈ ps, q.index < p.index)
      (next : SkipsOnlyShort blocks ps p.index)
      (fileIndex : p.head.fileIndex = h.fileIndex) (tag : p.head.tag = h.tag.continuation)
      (continues : p.head.tag.raw < 0)
      (outstanding : data.length + p.head.outstanding.toNat = h.outstanding.toNat) :
      Gathers blocks h number (data ++ p.data) (ps ++ [p])

def Record.IsMadeOf (blocks : List LoadedBlock) (r : Record) (places : List Place) : Prop :=
  ∃ h : PieceHeader, Gathers blocks h r.blockNumber r.payload places ∧
    r.payload.length = h.outstanding.toNat ∧ r.fileIndex = h.fileIndex ∧ r.tag = h.tag ∧
    r.session = h.session

theorem Gathers.tag_nonneg {blocks : List LoadedBlock} {h : PieceHeader} {number : UInt32}
    {data : Bytes} {ps : List Place} (g : Gathers blocks h number data ps) : 0 ≤ h.tag.raw := by
  induction g with
  | first _ starts => exact starts
  | later _ _ _ _ _ _ _ _ _ ih => exact ih

structure Fragment.IsGathered (blocks : List LoadedBlock) (f : Fragment) (ps : List Place) :
    Prop where
  gathers : Gathers blocks f.head f.blockNumber f.collected.toList ps
  length : f.collected.toList.length + f.missing = f.head.outstanding.toNat

namespace Fragment
variable {blocks : List LoadedBlock} {f : Fragment} {ps : List Place} {p : Place}

theorem toList_extend (f : Fragment) (data : Bytes) :
    (f.extend data).collected.toList = f.collected.toList ++ data := by
  simp [extend]

theorem length_extend {n : Nat} {data : Bytes} (hlength : f.collected.toList.length + f.missing = n)
    (hle : data.length ≤ f.missing) :
    (f.extend data).collected.toList.length + (f.extend data).missing = n := by
  rw [toList_extend, List.length_append]
  simp only [extend]
  omega

theorem isGathered_first (inside : p.IsIn blocks) (starts : p.head.tag.isContinuation = false) :
    ((⟨p.head, p.block.number, #[], p.head.outstanding.toNat⟩ : Fragment).extend
      p.data).IsGathered blocks [p] := by
  refine ⟨?_, length_extend (Nat.zero_add _) (List.length_take_le ..)⟩
  rw [toList_extend]
  exact .first inside (by simpa [StreamTag.isContinuation] using starts)

theorem isGathered_later (hf : f.IsGathered blocks ps) (inside : p.IsIn blocks)
    (leading : p.start = 0) (follows : ∀ q ∈ ps, q.index < p.index)
    (next : SkipsOnlyShort blocks ps p.index) (continued : f.continuedBy p.head = true) :
    (f.extend p.data).IsGathered blocks (ps ++ [p]) := by
  simp only [continuedBy, StreamTag.isContinuation, Bool.and_eq_true, beq_iff_eq,
    decide_eq_true_eq] at continued
  obtain ⟨⟨⟨continues, fileIndex⟩, tag⟩, missing⟩ := continued
  refine ⟨?_, length_extend hf.length (missing ▸ List.length_take_le ..)⟩
  rw [toList_extend]
  refine .later hf.gathers inside leading follows next fileIndex tag continues ?_
  rw [missing]
  exact hf.length

theorem IsGathered.isMadeOf (hf : f.IsGathered blocks ps) (complete : f.missing = 0) :
    f.toRecord.IsMadeOf blocks ps := by
  have hlength := hf.length
  rw [complete, Nat.add_zero] at hlength
  exact ⟨f.head, hf.gathers, hlength, rfl, rfl, rfl⟩

end Fragment

structure Ascends (ps : List Place) (i start : Nat) : Prop where
  apart : ps.Pairwise Place.Before
  behind : ∀ p ∈ ps, p.EndsBefore i start

namespace Ascends
variable {ps qs : List Place} {p : Place} {i start stop : Nat}

theorem skip (h : Ascends ps i start) (hle : start ≤ stop) : Ascends ps i stop := by
  refine ⟨h.apart, fun p hp => ?_⟩
  rcases h.behind p hp with hindex | ⟨hindex, hstop⟩
  · exact .inl hindex
  · exact .inr ⟨hindex, Nat.le_trans hstop hle⟩

theorem index_lt_succ (h : Ascends ps i start) (hp : p ∈ ps) : p.index < i + 1 := by
  rcases h.behind p hp with hindex | ⟨hindex, -⟩ <;> omega

theorem nextBlock (h : Ascends ps i start) : Ascends ps (i + 1) 0 :=
  ⟨h.apart, fun _ hp => .inl (h.index_lt_succ hp)⟩

theorem sublist (h : Ascends ps i start) (hsub : qs.Sublist ps) : Ascends qs i start :=
  ⟨h.apart.sublist hsub, fun p hp => h.behind p (hsub.subset hp)⟩

theorem push (h : Ascends ps p.index p.start) (hstop : p.stop ≤ stop) :
    Ascends (ps ++ [p]) p.index stop := by
  have hstart : p.start ≤ stop := by
    have : p.start ≤ p.stop := by rw [Place.stop, Place.dataStart]; omega
    omega
  refine ⟨?_, ?_⟩
  · rw [List.pairwise_append]
    refine ⟨h.apart, List.pairwise_singleton .., ?_⟩
    intro q hq p' hp'
    rw [List.mem_singleton.mp hp']
    exact h.behind q hq
  · intro q hq
    rcases List.mem_append.mp hq with hq | hq
    · exact (h.skip hstart).behind q hq
    · rw [List.mem_singleton.mp hq]
      exact .inr ⟨rfl, hstop⟩

end Ascends

/-- The account of an assembler that has come to position `start` of block number `i`: which
places the records so far are made of, and which a waiting fragment is gathered from. A fragment
waits only between blocks. -/
structure Ledger (blocks : List LoadedBlock) (a : Assembler) (i start : Nat)
    (origins : List (Record × List Place)) (waiting : List Place) : Prop where
  made : ∀ o ∈ origins, o.1.IsMadeOf blocks o.2
  ascends : Ascends (origins.flatMap Prod.snd ++ waiting) i start
  waits : ∀ f, a.pending = some f → f.IsGathered blocks waiting ∧ start = 0 ∧
    (∀ p ∈ waiting, p.index < i) ∧ SkipsOnlyShort blocks waiting i

inductive Turn (blocks : List LoadedBlock) (i : Nat) (B : LoadedBlock)
    (origins : List (Record × List Place)) (records : Nat) :
    Assembler → LoadedBlock → Except RecordError Unpacked → Prop
  | record {c : Assembler} {r : Record} {ps : List Place} {stop : Nat}
      (settled : c.pending = none) (counted : c.records = records + 1)
      (ledger : Ledger blocks c i stop (origins ++ [(r, ps)]) []) :
      Turn blocks i B origins records c (B.drop stop) (.ok (.record r))
  | exhausted {c : Assembler} {d : LoadedBlock} {waiting : List Place} (consumed : d.rest = [])
      (counted : c.records = records) (ledger : Ledger blocks c (i + 1) 0 origins waiting) :
      Turn blocks i B origins records c d (.ok .exhausted)
  | broken {c : Assembler} {fileIndex : Int32} {expected : Nat}
      (settled : c.pending = none) (counted : c.records = records)
      (inside : (⟨i, B, 0⟩ : Place).IsIn blocks) (ledger : Ledger blocks c i 0 origins []) :
      Turn blocks i B origins records c B
        (.error (.brokenContinuation B.number fileIndex expected (⟨i, B, 0⟩ : Place).head))

namespace Ledger
variable {blocks : List LoadedBlock} {a c : Assembler} {i start : Nat}
  {origins : List (Record × List Place)} {waiting : List Place} {B b d : LoadedBlock}

theorem forget {stop : Nat} (h : Ledger blocks a i start origins waiting) (hle : start ≤ stop)
    (settled : c.pending = none) : Ledger blocks c i stop origins [] := by
  refine ⟨h.made, (h.ascends.sublist (by simp)).skip hle, ?_⟩
  intro f hf
  rw [settled] at hf
  cases hf

/-- A block that is too short for another header is left. -/
theorem nextBlock (h : Ledger blocks a i start origins waiting) (hB : blocks[i]? = some B)
    (short : B.rest.length < start + B.layout.recordHeaderLength) :
    Ledger blocks a (i + 1) 0 origins waiting := by
  refine ⟨h.made, h.ascends.nextBlock, ?_⟩
  intro f hf
  obtain ⟨hgathered, rfl, hindex, hskips⟩ := h.waits f hf
  refine ⟨hgathered, rfl, fun p hp => Nat.lt_succ_of_lt (hindex p hp), ?_⟩
  intro j b hj hbehind hlt
  rcases Nat.lt_succ_iff_lt_or_eq.mp hlt with hlt | rfl
  · exact hskips j b hj hbehind hlt
  · rw [hB] at hj
    cases hj
    omega

/-- Taking what the block holds of a fragment, whose last piece starts at `p`. -/
theorem settle {f : Fragment} {ps : List Place} {p : Place} {x : Unpacked}
    (made : ∀ o ∈ origins, o.1.IsMadeOf blocks o.2)
    (ascends : Ascends (origins.flatMap Prod.snd ++ ps) p.index p.start)
    (hdata : p.data = (B.drop p.dataStart).rest.take f.missing)
    (grown : (f.extend p.data).IsGathered blocks (ps ++ [p]))
    (hs : a.settle f (B.drop p.dataStart) = (c, d, x)) :
    Turn blocks p.index B origins a.records c d (.ok x) := by
  have hstop : p.stop ≤ p.dataStart + f.missing := by
    have : p.data.length ≤ f.missing := hdata ▸ List.length_take_le ..
    rw [Place.stop]
    omega
  have hascends := ascends.push hstop
  rw [List.append_assoc] at hascends
  rw [Assembler.settle, ← hdata, LoadedBlock.drop_drop] at hs
  split at hs
  · next complete =>
    cases hs
    have hledger : Ledger blocks { a with pending := none, records := a.records + 1 } p.index
        (p.dataStart + f.missing) (origins ++ [((f.extend p.data).toRecord, ps ++ [p])]) [] := by
      refine ⟨?_, ?_, by rintro g ⟨⟩⟩
      · intro o ho
        rcases List.mem_append.mp ho with ho | ho
        · exact made o ho
        · rw [List.mem_singleton.mp ho]
          exact grown.isMadeOf complete
      · simpa using hascends
    exact .record rfl rfl hledger
  · next partly =>
    cases hs
    -- The block is used up, and what it held waits for the blocks behind.
    have hall : p.data.length < f.missing := by
      simp only [Fragment.extend] at partly
      omega
    have hrest : (B.drop p.dataStart).rest.length ≤ f.missing := by
      rw [hdata, List.length_take] at hall
      omega
    refine .exhausted ?_ rfl ⟨made, hascends.nextBlock, ?_⟩
    · rw [← LoadedBlock.drop_drop]
      exact List.drop_of_length_le hrest
    · rintro g ⟨rfl⟩
      refine ⟨grown, rfl, fun q hq => hascends.index_lt_succ (by simp [hq]), ?_⟩
      intro j b hj hbehind hlt
      have := hbehind p (by simp)
      omega

theorem unpack {x : Except RecordError Unpacked} (hB : blocks[i]? = some B)
    (h : ∃ start waiting, Ledger blocks a i start origins waiting ∧ b = B.drop start)
    (hu : a.unpack b = (c, d, x)) : Turn blocks i B origins a.records c d x := by
  -- Skipping a continuation moves on within the block, so where it is left is not fixed.
  fun_induction Assembler.unpack a b with
  | case1 a b n raw short =>
    obtain ⟨start, waiting, h, rfl⟩ := h
    cases hu
    refine .exhausted rfl rfl (h.nextBlock hB ?_)
    simp only [raw, n, LoadedBlock.drop, LoadedBlock.layout, List.length_take,
      List.length_drop] at short
    simp only [LoadedBlock.layout]
    omega
  | case2 a b n raw short head f awaits continued a' b' u settled =>
    obtain ⟨start, waiting, h, rfl⟩ := h
    cases hu
    obtain ⟨hgathered, rfl, hindex, hskips⟩ := h.waits f awaits
    let p : Place := ⟨i, B, 0⟩
    have inside : p.IsIn blocks := Place.isIn_of_long hB short
    have hmissing : p.head.outstanding.toNat = f.missing := by
      simp only [Fragment.continuedBy, Bool.and_eq_true, beq_iff_eq] at continued
      exact continued.2
    have hdata : p.data = (B.drop p.dataStart).rest.take f.missing := by
      rw [Place.data, hmissing, Bytes.slice, LoadedBlock.drop]
    rw [LoadedBlock.drop_drop] at settled
    exact settle (a := a.discard) (p := p) h.made h.ascends hdata
      (Fragment.isGathered_later hgathered inside rfl hindex hskips continued) settled
  | case3 a b n raw short head f awaits broken =>
    obtain ⟨start, waiting, h, rfl⟩ := h
    cases hu
    obtain ⟨-, rfl, -, -⟩ := h.waits f awaits
    exact .broken rfl rfl (Place.isIn_of_long hB short) (h.forget (Nat.le_refl 0) rfl)
  | case4 a b n raw short head none continuation ih =>
    obtain ⟨start, waiting, h, rfl⟩ := h
    exact ih ⟨_, [], h.forget (Nat.le_add_right ..) none, LoadedBlock.drop_drop ..⟩ hu
  | case5 a b n raw short head none first a' b' u settled =>
    obtain ⟨start, waiting, h, rfl⟩ := h
    cases hu
    let p : Place := ⟨i, B, start⟩
    have inside : p.IsIn blocks := Place.isIn_of_long hB short
    have hstarts : p.head.tag.isContinuation = false := Bool.not_eq_true _ ▸ first
    rw [LoadedBlock.drop_drop] at settled
    have hascends : Ascends (origins.flatMap Prod.snd ++ []) p.index p.start :=
      (h.forget (Nat.le_refl _) none).ascends
    exact settle h.made hascends rfl (Fragment.isGathered_first inside hstarts) settled

end Ledger

/-- A record waits behind a call only where the block is used up, and a broken record is reported
only of the leading header of a block that nothing has been taken from. -/
structure Call.IsOrderly (blocks : List LoadedBlock) (c : Call) : Prop where
  waits : c.state.isPending → c.after.rest = []
  broken : ∀ e, c.outcome = .error e →
    (⟨c.index, c.before, 0⟩ : Place).IsIn blocks ∧ ∃ fileIndex expected,
      e = .brokenContinuation c.before.number fileIndex expected
        (⟨c.index, c.before, 0⟩ : Place).head

theorem Call.records_append (cs ds : List Call) :
    Call.records (cs ++ ds) = Call.records cs ++ Call.records ds := List.filterMap_append ..

structure Account (blocks : List LoadedBlock) (cs : List Call) (a : Assembler) (i start : Nat)
    (origins : List (Record × List Place)) (waiting : List Place) : Prop where
  ledger : Ledger blocks a i start origins waiting
  records : origins.map Prod.fst = Call.records cs
  orderly : ∀ c ∈ cs, c.IsOrderly blocks
  counted : a.records = (Call.records cs).length

namespace Account
variable {blocks : List LoadedBlock} {cs : List Call} {a c : Assembler} {i start : Nat}
  {origins : List (Record × List Place)} {waiting : List Place} {B b d : LoadedBlock}

theorem snoc {call : Call} {j stop : Nat} {origins' : List (Record × List Place)}
    {waiting' : List Place} (h : Account blocks cs a i start origins waiting)
    (ledger : Ledger blocks call.state j stop origins' waiting')
    (records : origins'.map Prod.fst = origins.map Prod.fst ++ Call.records [call])
    (orderly : call.IsOrderly blocks)
    (counted : call.state.records = a.records + (Call.records [call]).length) :
    Account blocks (cs ++ [call]) call.state j stop origins' waiting' := by
  refine ⟨ledger, ?_, ?_, ?_⟩
  · rw [records, h.records, Call.records_append]
  · intro c hc
    rcases List.mem_append.mp hc with hc | hc
    · exact h.orderly c hc
    · exact List.mem_singleton.mp hc ▸ orderly
  · rw [counted, h.counted, Call.records_append, List.length_append]

theorem callsOn (h : Account blocks cs a i start origins waiting) (hb : b = B.drop start)
    (hB : blocks[i]? = some B) :
    ∃ origins waiting, Account blocks (cs ++ (a.callsOn i b).2) (a.callsOn i b).1 (i + 1) 0
      origins waiting := by
  fun_induction Assembler.callsOn a i b generalizing cs start origins waiting with
  | case1 a b c d unpacked =>
    have turn := Ledger.unpack hB ⟨start, waiting, h.ledger, hb⟩ unpacked
    cases turn with
    | exhausted consumed counted ledger =>
      have orderly : Call.IsOrderly blocks ⟨i, b, d, c, .ok .exhausted⟩ :=
        ⟨fun _ => consumed, by rintro _ ⟨⟩⟩
      exact ⟨_, _, h.snoc ledger (List.append_nil _).symm orderly counted⟩
  | case2 a b c d r unpacked e ds called ih =>
    have turn := Ledger.unpack hB ⟨start, waiting, h.ledger, hb⟩ unpacked
    cases turn with
    | @record _ ps stop settled counted ledger =>
      have orderly : Call.IsOrderly blocks ⟨i, b, B.drop stop, c, .ok (.record r)⟩ :=
        ⟨by simp [Assembler.isPending, settled], by rintro _ ⟨⟩⟩
      have hnext := h.snoc ledger List.map_append orderly counted
      have hrest := ih hnext rfl
      rw [called, List.append_assoc] at hrest
      exact hrest
  | case3 a b c d x unpacked e ds called ih =>
    have turn := Ledger.unpack hB ⟨start, waiting, h.ledger, hb⟩ unpacked
    obtain ⟨hd, -, -⟩ := Assembler.eq_of_unpack_error unpacked
    subst hd
    cases turn with
    | @broken fileIndex expected settled counted inside ledger =>
      have orderly : Call.IsOrderly blocks ⟨i, B, B, c, .error (.brokenContinuation B.number
          fileIndex expected (⟨i, B, 0⟩ : Place).head)⟩ := by
        refine ⟨by simp [Assembler.isPending, settled], ?_⟩
        rintro _ ⟨⟩
        exact ⟨inside, fileIndex, expected, rfl⟩
      have hnext := h.snoc ledger (List.append_nil _).symm orderly counted
      have hrest := ih hnext rfl
      rw [called, List.append_assoc] at hrest
      exact hrest

theorem callsFrom {bs : List LoadedBlock} (h : Account blocks cs a i 0 origins waiting)
    (hbs : blocks.drop i = bs) :
    ∃ j origins waiting, Account blocks (cs ++ (a.callsFrom i bs).2) (a.callsFrom i bs).1 j 0
      origins waiting := by
  induction bs generalizing cs a i origins waiting with
  | nil =>
    rw [Assembler.callsFrom, List.append_nil]
    exact ⟨i, origins, waiting, h⟩
  | cons b bs ih =>
    have hb : blocks[i]? = some b := by
      rw [← List.head?_drop, hbs, List.head?_cons]
    have hnext : blocks.drop (i + 1) = bs := by
      rw [← List.tail_drop, hbs, List.tail_cons]
    obtain ⟨origins, waiting, hblock⟩ := h.callsOn (b := b) rfl hb
    obtain ⟨j, origins, waiting, hrest⟩ := ih hblock hnext
    rw [List.append_assoc] at hrest
    exact ⟨j, origins, waiting, hrest⟩

end Account

/-- Whatever the blocks hold, each record handed out is a whole one with the tag of a first piece,
made of octets of the blocks that no other record is made of. Records wait and break only at the
ends of blocks, and the records handed out are counted. -/
theorem Assembler.accounts_calls (blocks : List LoadedBlock) :
    ∃ origins : List (Record × List Place),
      origins.map Prod.fst = Call.records (calls blocks).2 ∧
      (∀ o ∈ origins, 0 ≤ o.1.tag.raw ∧ o.1.IsMadeOf blocks o.2) ∧
      (origins.flatMap Prod.snd).Pairwise Place.Before ∧
      (∀ c ∈ (calls blocks).2, c.IsOrderly blocks) ∧
      (calls blocks).1.records = (Call.records (calls blocks).2).length := by
  have hstart : Account blocks [] {} 0 0 [] [] :=
    ⟨⟨by simp, ⟨.nil, by simp⟩, by rintro f ⟨⟩⟩, rfl, by simp, rfl⟩
  obtain ⟨j, origins, waiting, h⟩ := hstart.callsFrom (List.drop_zero ..)
  rw [List.nil_append] at h
  refine ⟨origins, h.records, ?_, ?_, h.orderly, h.counted⟩
  · intro o ho
    obtain ⟨head, hgathers, -, -, htag, -⟩ := h.ledger.made o ho
    exact ⟨htag ▸ hgathers.tag_nonneg, h.ledger.made o ho⟩
  · exact h.ledger.ascends.apart.sublist (List.sublist_append_left ..)

end BackupVolume
