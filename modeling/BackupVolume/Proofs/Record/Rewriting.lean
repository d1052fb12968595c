import BackupVolume.Proofs.Record.Reassembly
import BackupVolume.Proofs.Volume.Storing
import Mathlib.Data.List.Forall2

/-! # Writing records again

A record that was read can be written to other blocks, and is cut where they end. Its later pieces
are told from first ones by the sign of their tag alone. So the record is found again if its tag is
positive. Zero has no sign: a record with this tag is found again only where it is not cut, and
otherwise every later piece breaks off what the piece before it began.
-/
namespace BackupVolume

def Call.answer? (c : Call) : Option (Except RecordError Record) :=
  match c.outcome with
  | .ok (.record r) => some (.ok r)
  | .ok .exhausted => none
  | .error e => some (.error e)

def Call.answers (cs : List Call) : List (Except RecordError Record) := cs.filterMap Call.answer?

theorem Call.mem_records_of_mem_answers {cs : List Call} {r : Record} (h : .ok r ∈ answers cs) :
    r ∈ records cs := by
  obtain ⟨c, hc, hanswer⟩ := List.mem_filterMap.mp h
  refine List.mem_filterMap.mpr ⟨c, hc, ?_⟩
  rw [answer?] at hanswer
  rw [record?]
  split at hanswer
  · next ho =>
    rw [ho]
    exact congrArg some (Except.ok.inj (Option.some.inj hanswer))
  · cases hanswer
  · cases hanswer

namespace Assembler

theorem answers_callsOn (a : Assembler) (i : Nat) (b : LoadedBlock) :
    (a.callsOn i b).1 = (a.unpackAll b).1 ∧
      Call.answers (a.callsOn i b).2 = (a.unpackAll b).2 := by
  fun_induction callsOn a i b with
  | case1 a b c d unpacked =>
    rw [unpackAll_exhausted unpacked]
    exact ⟨rfl, rfl⟩
  | case2 a b c d r unpacked e cs called ih =>
    rw [called] at ih
    rw [unpackAll_record unpacked, ← ih.1, ← ih.2]
    exact ⟨rfl, rfl⟩
  | case3 a b c d x unpacked e cs called ih =>
    rw [called] at ih
    rw [unpackAll_error unpacked, ← ih.1, ← ih.2]
    exact ⟨rfl, rfl⟩

theorem answers_callsFrom_cons (a : Assembler) (i : Nat) (b : LoadedBlock)
    (bs : List LoadedBlock) : Call.answers (a.callsFrom i (b :: bs)).2
      = (a.unpackAll b).2 ++ Call.answers ((a.unpackAll b).1.callsFrom (i + 1) bs).2 := by
  obtain ⟨hstate, hanswers⟩ := a.answers_callsOn i b
  rw [← hstate, ← hanswers]
  exact List.filterMap_append ..

/-- A block with one piece in it yields what receiving the piece yields. -/
theorem unpackAll_singleton {b : LoadedBlock} {p : Piece} (hs : p.head.session = b.session)
    (hb : b.rest = p.toBytes b.layout) (hp : p.data.length ≤ p.head.outstanding.toNat)
    (a : Assembler) : a.unpackAll b = a.receive b.number p := by
  have hrest : b.rest = [p].flatMap (Piece.toBytes b.layout) := by
    rw [hb, List.flatMap_singleton]
  rw [unpackAll_pieces a (by simpa using .inr hs) hrest (by simpa using hp) (by simp)]
  simp [receiveAll]

/-- Records that are handed out have the tag of a first piece, and a length that its header can
tell. -/
theorem bounds_of_mem_answers {blocks : List LoadedBlock} {r : Record}
    (h : .ok r ∈ Call.answers (calls blocks).2) : 0 ≤ r.tag.raw ∧ r.payload.length < 2 ^ 32 := by
  have hstart : Account blocks [] {} 0 0 [] [] :=
    ⟨⟨by simp, ⟨.nil, by simp⟩, by rintro f ⟨⟩⟩, rfl, by simp, rfl⟩
  obtain ⟨j, origins, waiting, haccount⟩ := hstart.callsFrom (List.drop_zero ..)
  rw [List.nil_append] at haccount
  have hr := Call.mem_records_of_mem_answers h
  rw [calls, ← haccount.records] at hr
  obtain ⟨origin, horigin, rfl⟩ := List.mem_map.mp hr
  obtain ⟨head, hgathers, hlength, -, htag, -⟩ := haccount.ledger.made origin horigin
  exact ⟨htag ▸ hgathers.tag_nonneg, hlength ▸ head.outstanding.toNat_lt⟩

end Assembler

namespace DraftBlock

structure IsBlank (capacity : Nat) (d : DraftBlock) : Prop where
  empty : d.isEmpty = true
  layout : d.layout = .bb03
  size : d.capacity = capacity
  options : BlockOptions.ofBits? d.options.bits = some d.options

theorem isBlank_new (capacity : Nat) (session : Session) (number : UInt32) :
    IsBlank capacity { capacity, session, number } := by
  have hknown : BlockOptions.ofBits? BlockOptions.checksum.bits = some .checksum := by decide
  exact ⟨rfl, rfl, rfl, hknown⟩

/-- Packs what is left of a record into one block after another, from number `i` on; nothing if one
of them does not take a piece. -/
def packAll (blank : Nat → DraftBlock) (i : Nat) (o : Outstanding) : Option (List DraftBlock) :=
  match _packed : (blank i).pack o with
  | none => none
  | some (d, left) =>
    match _left : left.isComplete with
    | true => some [d]
    | false => (packAll blank (i + 1) left).map (d :: ·)
termination_by o.rest.length
decreasing_by exact rest_lt_of_pack _packed _left

structure LoadedAs (d : DraftBlock) (b : LoadedBlock) : Prop where
  layout : b.layout = .bb03
  session : b.session = d.session
  number : b.number = d.number
  rest : b.rest = d.payload

structure Bears (d blank : DraftBlock) (p : Piece) : Prop where
  layout : d.layout = .bb03
  options : d.options = blank.options
  session : d.session = blank.session
  number : d.number = blank.number
  payload : d.payload = p.toBytes .bb03

/-- An empty block takes as much of a record as there is room behind the header. -/
theorem IsBlank.pack {capacity : Nat} {blank : DraftBlock} (h : blank.IsBlank capacity)
    (hc : HeaderLayout.bb03.recordHeaderLength < capacity) (o : Outstanding) :
    ∃ d, blank.pack o = some (d, o.after (capacity - HeaderLayout.bb03.recordHeaderLength)) ∧
      d.Bears blank ⟨o.header blank.session,
        o.rest.take (capacity - HeaderLayout.bb03.recordHeaderLength)⟩ := by
  obtain ⟨⟨d, left⟩, hpack⟩ := Option.ne_none_iff_exists'.mp
    (exists_pack_of_isEmpty h.empty (by rw [h.layout, h.size]; exact hc) o)
  have harea : blank.area = #[] := by simpa [isEmpty] using h.empty
  have hroom : blank.room = capacity - HeaderLayout.bb03.recordHeaderLength := by
    rw [room, free, used, h.size, h.layout, harea]
    rfl
  have hpayload := payload_of_pack hpack
  rw [h.layout, nextPiece, hroom] at hpayload
  obtain ⟨-, hleft, first, last, hd⟩ := exists_of_pack hpack
  have hempty : blank.payload = [] := by rw [payload, harea]
  rw [hempty, List.nil_append] at hpayload
  refine ⟨d, by rw [hpack, hleft, hroom], ?_, ?_, ?_, ?_, hpayload⟩
  · rw [hd]; exact h.layout
  · rw [hd]
  · rw [hd]
  · rw [hd]

namespace Bears
variable {d blank : DraftBlock} {p : Piece}

theorem length_payload (h : d.Bears blank p) :
    d.payload.length = HeaderLayout.bb03.recordHeaderLength + p.data.length := by
  rw [h.payload, Piece.length_toBytes]

/-- Stored and read back, the draft is what it was. -/
theorem loadedAs_decode (h : d.Bears blank p)
    (ho : BlockOptions.ofBits? blank.options.bits = some blank.options)
    (hfits : HeaderLayout.bb03.headerLength blank.options + d.payload.length ≤ maxBlockLength)
    (verify : Bool) (address : Nat) :
    ∃ b, LoadedBlock.decode verify address d.encode = .ok b ∧ d.LoadedAs b := by
  have hencode : d.encode = d.encodeAsIs.2 := by
    have hsame : { d.header with layout := .bb03 } = d.header := by
      rw [← h.layout]
      rfl
    rw [encode, hsame]
    rfl
  have hsize : d.payload.length = d.used := Array.length_toList
  rw [← h.options] at ho
  rw [← h.options, ← h.layout, hsize] at hfits
  obtain ⟨b, hb, hlayout, hsession, hnumber, hrest⟩ :=
    decode_encodeAsIs (.inr ho) hfits verify address
  rw [hencode]
  refine ⟨b, hb, hlayout.trans h.layout, ?_, hnumber, hrest⟩
  rcases hsession with hfirst | hsession
  · rw [h.layout] at hfirst
    cases hfirst
  · exact hsession

/-- A block can be drained where it was filled. -/
theorem loadedAs (h : d.Bears blank p) : d.LoadedAs ⟨d.header, 0, d.payload⟩ :=
  ⟨h.layout, rfl, rfl, rfl⟩

/-- Reading the draft is receiving the piece. -/
theorem unpackAll (h : d.Bears blank p) (hs : p.head.session = blank.session)
    (hp : p.data.length ≤ p.head.outstanding.toNat) {b : LoadedBlock} (hb : d.LoadedAs b)
    (a : Assembler) : a.unpackAll b = a.receive b.number p :=
  Assembler.unpackAll_singleton (by rw [hs, hb.session, h.session])
    (by rw [hb.rest, hb.layout, h.payload]) hp a

end Bears
end DraftBlock

namespace Outstanding

inductive Spread (room : Nat) : Outstanding → List LoadedBlock → Prop
  | last {o : Outstanding} {b : LoadedBlock} : o.rest.length ≤ room →
    (∀ a : Assembler, a.unpackAll b = a.receive b.number ⟨o.header b.session, o.rest⟩) →
      Spread room o [b]
  | split {o : Outstanding} {b : LoadedBlock} {bs : List LoadedBlock} : room < o.rest.length →
    (∀ a : Assembler,
      a.unpackAll b = a.receive b.number ⟨o.header b.session, o.rest.take room⟩) →
      Spread room (o.after room) bs → Spread room o (b :: bs)

theorem isContinuation_pieceTag_of_zero (o : Outstanding) (ht : o.tag.raw = 0) :
    o.pieceTag.isContinuation = false := by
  rw [pieceTag]
  split
  · rw [StreamTag.continuation, ht]
    decide
  · rw [StreamTag.isContinuation, ht]
    decide

end Outstanding

section Packing
variable {capacity room : Nat} {blank : Nat → DraftBlock}

theorem DraftBlock.exists_packAll (hc : HeaderLayout.bb03.recordHeaderLength + room = capacity)
    (hpos : 0 < room) (hb : ∀ i, (blank i).IsBlank capacity) (i : Nat) (o : Outstanding)
    (hl : o.rest.length < 2 ^ 32) :
    ∃ drafts, packAll blank i o = some drafts ∧
      (∀ d ∈ drafts, ∃ j p, d.Bears (blank j) p ∧ p.data.length ≤ room) ∧
      ∀ loaded, List.Forall₂ LoadedAs drafts loaded → o.Spread room loaded ∧
        ∃ b bs, loaded = b :: bs ∧ b.session = (blank i).session ∧ b.number = (blank i).number := by
  have hpack (i : Nat) (o : Outstanding) := (hb i).pack (by omega) o
  have hroom : capacity - HeaderLayout.bb03.recordHeaderLength = room := by omega
  rw [hroom] at hpack
  fun_induction packAll blank i o with
  | case1 i o packed =>
    obtain ⟨d, hsome, -⟩ := hpack i o
    cases packed.symm.trans hsome
  | case2 i o d left packed complete =>
    obtain ⟨d', hsome, hbears⟩ := hpack i o
    obtain ⟨rfl, rfl⟩ := Prod.mk.inj (Option.some.inj (packed.symm.trans hsome))
    have hfits : o.rest.length ≤ room := by
      simpa [Outstanding.isComplete, Outstanding.after] using complete
    refine ⟨[d], rfl, fun e he => ⟨i, _, List.mem_singleton.mp he ▸ hbears, List.length_take_le ..⟩,
      fun loaded hloaded => ?_⟩
    cases hloaded with
    | @cons _ b _ _ hd hnil =>
      cases hnil
      have hsession : b.session = (blank i).session := hd.session.trans hbears.session
      refine ⟨.last hfits fun a => ?_, b, [], rfl, hsession, hd.number.trans hbears.number⟩
      rw [List.take_of_length_le hfits, ← hsession] at hbears
      refine hbears.unpackAll hsession ?_ hd a
      exact Nat.le_of_eq (o.toNat_outstanding_header b.session hl).symm
  | case3 i o d left packed unfinished ih =>
    obtain ⟨d', hsome, hbears⟩ := hpack i o
    obtain ⟨rfl, rfl⟩ := Prod.mk.inj (Option.some.inj (packed.symm.trans hsome))
    have hlong : room < o.rest.length := by
      simpa [Outstanding.isComplete, Outstanding.after] using unfinished
    obtain ⟨drafts, hdrafts, hall, hspread⟩ :=
      ih (by rw [o.length_rest_after]; omega)
    refine ⟨d :: drafts, by rw [hdrafts]; rfl, fun e he => ?_, fun loaded hloaded => ?_⟩
    · rcases List.mem_cons.mp he with rfl | he
      · exact ⟨i, _, hbears, List.length_take_le ..⟩
      · exact hall e he
    · cases hloaded with
      | @cons _ b _ bs hd hrest =>
        have hsession : b.session = (blank i).session := hd.session.trans hbears.session
        refine ⟨.split hlong (fun a => ?_) (hspread bs hrest).1, b, bs, rfl, hsession,
          hd.number.trans hbears.number⟩
        rw [← hsession] at hbears
        refine hbears.unpackAll hsession ?_ hd a
        rw [o.toNat_outstanding_header b.session hl]
        exact List.length_take_le' ..

end Packing

namespace Assembler
variable {room : Nat} {o : Outstanding} {bs : List LoadedBlock}

/-- What waits of a record with a positive tag is completed. -/
theorem answers_waiting (hs : o.Spread room bs) (ht : 0 < o.tag.raw) (hl : o.rest.length < 2 ^ 32)
    {a : Assembler} {f : Fragment} (ha : a.pending = some f) (hf : f.Awaits o) (i : Nat) :
    Call.answers (a.callsFrom i bs).2 = [.ok (f.extend o.rest).toRecord] := by
  induction hs generalizing a f i with
  | @last o b _ hread =>
    rw [answers_callsFrom_cons, hread a, receive_last ht hl ha hf]
    rfl
  | @split o b bs hlong hread _ ih =>
    obtain ⟨hawaits, hreceive⟩ := receive_part ht hl ha hf hlong b.number b.session
    rw [answers_callsFrom_cons, hread a, hreceive, List.nil_append,
      ih ht (by rw [o.length_rest_after]; omega) rfl hawaits, f.extend_after]

/-- A piece that is not told to be a later one breaks off what waits. -/
theorem receive_broken {a : Assembler} {f : Fragment} (ha : a.pending = some f) {p : Piece}
    (hp : p.head.tag.isContinuation = false) (number : UInt32) :
    ∃ e, a.receive number p
      = ((a.discard.begin number p).1, .error e :: (a.discard.begin number p).2) := by
  have hcont : f.continuedBy p.head = false := by simp [Fragment.continuedBy, hp]
  exact ⟨.brokenContinuation number f.head.fileIndex f.missing p.head,
    by simp only [receive, ha, hcont, Bool.false_eq_true, if_false]⟩

/-- Every later piece of a record with tag zero breaks off what waits, and only the octets of the
last one are handed out. -/
theorem answers_unsigned (hs : o.Spread room bs) (ht : o.tag.raw = 0)
    (hl : o.rest.length < 2 ^ 32) {a : Assembler} {f : Fragment} (ha : a.pending = some f)
    (i : Nat) : ∃ (errors : List RecordError) (last : Record),
      Call.answers (a.callsFrom i bs).2 = errors.map .error ++ [.ok last] ∧
      errors.length = bs.length ∧ last.payload <:+ o.rest := by
  induction hs generalizing a f i with
  | @last o b _ hread =>
    have hsign := o.isContinuation_pieceTag_of_zero ht
    obtain ⟨e, hreceive⟩ := receive_broken ha (p := ⟨o.header b.session, o.rest⟩) hsign b.number
    refine ⟨[e], ⟨o.fileIndex, o.pieceTag, o.rest, b.session, b.number⟩, ?_, rfl,
      List.suffix_refl _⟩
    rw [answers_callsFrom_cons, hread a, hreceive, begin_whole hsign hl]
    rfl
  | @split o b bs hlong hread _ ih =>
    have hsign := o.isContinuation_pieceTag_of_zero ht
    obtain ⟨e, hreceive⟩ :=
      receive_broken ha (p := ⟨o.header b.session, o.rest.take room⟩) hsign b.number
    obtain ⟨g, hpart⟩ : ∃ g : Fragment, a.discard.begin b.number
        ⟨o.header b.session, o.rest.take room⟩ = ({ a.discard with pending := some g }, []) :=
      ⟨_, begin_part hsign hl hlong ..⟩
    obtain ⟨errors, last, hanswers, hlength, hsuffix⟩ :=
      ih ht (by rw [o.length_rest_after]; omega) (a := { a.discard with pending := some g }) rfl
        (i + 1)
    refine ⟨e :: errors, last, ?_, by rw [List.length_cons, hlength, List.length_cons],
      hsuffix.trans (List.drop_suffix ..)⟩
    rw [answers_callsFrom_cons, hread a, hreceive, hpart, hanswers]
    rfl

/-- A record that was spread over blocks is found again, unless it has tag zero and was cut. -/
theorem answers_spread {b : LoadedBlock} (hs : o.Spread room (b :: bs)) (hpos : 0 < room)
    (hstarted : o.started = false) (ht : 0 ≤ o.tag.raw) (hl : o.rest.length < 2 ^ 32) :
    if o.tag.raw = 0 ∧ room < o.rest.length then
      ∃ (errors : List RecordError) (last : Record),
        Call.answers (calls (b :: bs)).2 = errors.map .error ++ [.ok last] ∧
        errors.length = bs.length ∧ errors ≠ [] ∧ last.payload <:+ o.rest ∧
        last.payload.length < o.rest.length
    else Call.answers (calls (b :: bs)).2
      = [.ok ⟨o.fileIndex, o.tag, o.rest, b.session, b.number⟩] := by
  have htag : o.pieceTag = o.tag := by rw [Outstanding.pieceTag, hstarted]; rfl
  have hsign : o.pieceTag.isContinuation = false := by
    rw [htag, StreamTag.isContinuation, decide_eq_false_iff_not, Int32.not_lt]
    exact ht
  cases hs with
  | last hfits hread =>
    rw [if_neg fun h => Nat.not_lt.mpr hfits h.2, calls, answers_callsFrom_cons, hread,
      receive, begin_whole hsign hl, htag]
    rfl
  | split hlong hread hrest =>
    obtain ⟨f, hf⟩ : ∃ f : Fragment, f = ⟨o.header b.session, b.number, #[], o.rest.length⟩ :=
      ⟨_, rfl⟩
    have hpart : receive b.number {} ⟨o.header b.session, o.rest.take room⟩
        = ({ pending := some (f.extend (o.rest.take room)) }, []) := by
      rw [hf]
      exact begin_part hsign hl hlong {} b.number b.session
    have hafter := o.length_rest_after room
    rw [calls, answers_callsFrom_cons, hread, hpart, List.nil_append]
    by_cases hzero : o.tag.raw = 0
    · obtain ⟨errors, last, hanswers, hlength, hsuffix⟩ := answers_unsigned hrest hzero
        (by omega) (a := { pending := some (f.extend (o.rest.take room)) }) rfl 1
      rw [if_pos ⟨hzero, hlong⟩]
      refine ⟨errors, last, hanswers, hlength, ?_, hsuffix.trans (List.drop_suffix ..), ?_⟩
      · rw [← List.length_pos_iff, hlength]
        cases hrest <;> exact Nat.succ_pos _
      · have hle := hsuffix.length_le
        omega
    · have hpositive : 0 < o.tag.raw := by
        rcases Int32.le_iff_lt_or_eq.mp ht with h | h
        · exact h
        · exact absurd h.symm hzero
      have hwhole : (f.extend o.rest).toRecord
          = ⟨o.fileIndex, o.tag, o.rest, b.session, b.number⟩ := by
        rw [hf, ← htag]
        simp [Fragment.extend, Fragment.toRecord, Outstanding.header]
      obtain ⟨hawaits, -⟩ := Fragment.awaits_extend (f := f) (by rw [hf]; rfl)
        (by rw [hf]; exact htag) (by rw [hf]) hlong
      rw [if_neg fun h => hzero h.1, answers_waiting hrest hpositive (by omega) rfl hawaits,
        f.extend_after, hwhole]

/-- Every record with the tag of a first piece is handed out from some block, as long as its length
can be told. -/
theorem exists_answers {r : Record} (ht : 0 ≤ r.tag.raw) (hl : r.payload.length < 2 ^ 32) :
    ∃ b, Call.answers (calls [b]).2 = [.ok r] := by
  obtain ⟨p, hp⟩ : ∃ p : Piece, p = ⟨(Outstanding.whole r).header r.session, r.payload⟩ := ⟨_, rfl⟩
  have hlength := (Outstanding.whole r).toNat_outstanding_header r.session hl
  let b : LoadedBlock := ⟨⟨.bb03, .none, 0, r.blockNumber, r.session, 0⟩, 0, p.toBytes .bb03⟩
  have hspread : (Outstanding.whole r).Spread (r.payload.length + 1) [b] := by
    refine .last (Nat.le_succ _) fun a => ?_
    have hread := unpackAll_singleton (b := b) (p := p) (by rw [hp]; rfl) rfl
      (by rw [hp]; exact Nat.le_of_eq hlength.symm) a
    rwa [hp] at hread
  have hanswers := answers_spread hspread (Nat.succ_pos _) rfl ht hl
  rw [if_neg fun h => Nat.not_lt.mpr (Nat.le_succ _) h.2] at hanswers
  exact ⟨b, hanswers⟩

end Assembler

namespace DraftBlock

/-- Any record that was handed out can be packed into blank blocks with room for a header and an
octet, and what was packed can be stored and read. All of the blocks read together yield this record
and nothing else, unless its tag is zero and it does not fit into one block: then they yield errors,
and in the end a record that lacks the first octets. -/
theorem rereads_packAll {blocks : List LoadedBlock} {r : Record}
    (hr : .ok r ∈ Call.answers (Assembler.calls blocks).2) {capacity : Nat}
    (hc : HeaderLayout.bb03.recordHeaderLength < capacity) {blank : Nat → DraftBlock}
    (hb : ∀ i, (blank i).IsBlank capacity) :
    ∃ drafts, packAll blank 0 (.whole r) = some drafts ∧
      (HeaderLayout.bb03.headerLength .checksum + capacity ≤ maxBlockLength →
        ∀ d ∈ drafts, ∀ verify address,
          ∃ b, LoadedBlock.decode verify address d.encode = .ok b ∧ d.LoadedAs b) ∧
      ∀ loaded, List.Forall₂ LoadedAs drafts loaded →
        if r.tag.raw = 0 ∧ capacity < HeaderLayout.bb03.recordHeaderLength + r.payload.length then
          ∃ (errors : List RecordError) (last : Record),
            Call.answers (Assembler.calls loaded).2 = errors.map .error ++ [.ok last] ∧
            errors.length + 1 = loaded.length ∧ errors ≠ [] ∧ last.payload <:+ r.payload ∧
            last.payload.length < r.payload.length
        else Call.answers (Assembler.calls loaded).2
          = [.ok { r with session := (blank 0).session, blockNumber := (blank 0).number }] := by
  obtain ⟨ht, hl⟩ := Assembler.bounds_of_mem_answers hr
  obtain ⟨room, hroom⟩ := Nat.exists_eq_add_of_lt hc
  have hcapacity : HeaderLayout.bb03.recordHeaderLength + (room + 1) = capacity := by omega
  obtain ⟨drafts, hdrafts, hbears, hread⟩ :=
    exists_packAll hcapacity (Nat.succ_pos room) hb 0 (.whole r) hl
  refine ⟨drafts, hdrafts, fun hfits d hd verify address => ?_, fun loaded hloaded => ?_⟩
  · obtain ⟨j, p, hp, hdata⟩ := hbears d hd
    have hheader : HeaderLayout.bb03.headerLength (blank j).options
        ≤ HeaderLayout.bb03.headerLength .checksum := by
      rw [HeaderLayout.headerLength]
      split <;> decide
    refine hp.loadedAs_decode (hb j).options ?_ verify address
    rw [hp.length_payload]
    omega
  · obtain ⟨hspread, b, bs, rfl, hsession, hnumber⟩ := hread loaded hloaded
    have hanswers := Assembler.answers_spread hspread (Nat.succ_pos room) rfl ht hl
    rw [← hsession, ← hnumber, List.length_cons]
    by_cases hcut : r.tag.raw = 0 ∧
        capacity < HeaderLayout.bb03.recordHeaderLength + r.payload.length
    · rw [if_pos ⟨hcut.1, by simp only [Outstanding.whole]; omega⟩] at hanswers
      obtain ⟨errors, last, hanswers, hlength, hsome, hsuffix, hshort⟩ := hanswers
      rw [if_pos hcut]
      exact ⟨errors, last, hanswers, congrArg (· + 1) hlength, hsome, hsuffix, hshort⟩
    · rw [if_neg fun h => hcut ⟨h.1, by have := h.2; simp only [Outstanding.whole] at this; omega⟩]
        at hanswers
      rwa [if_neg hcut]

/-- A record with a positive tag in blocks with room for one octet each. -/
theorem rereads_packAll_octets :
    let r : Record := ⟨1, ⟨2⟩, [1, 2], {}, 0⟩
    let blank (i : Nat) : DraftBlock := { capacity := 13, session := ⟨7, 9⟩, number := i.toUInt32 }
    ∃ source drafts, .ok r ∈ Call.answers (Assembler.calls [source]).2 ∧
      packAll blank 0 (.whole r) = some drafts ∧
      ∀ loaded, List.Forall₂ LoadedAs drafts loaded →
        Call.answers (Assembler.calls loaded).2 = [.ok { r with session := ⟨7, 9⟩ }] := by
  intro r blank
  obtain ⟨source, hsource⟩ := Assembler.exists_answers (r := r) (by decide) (by decide)
  have hr : .ok r ∈ Call.answers (Assembler.calls [source]).2 := by
    rw [hsource]
    exact List.mem_singleton_self _
  have hblank (i : Nat) : (blank i).IsBlank 13 := isBlank_new ..
  obtain ⟨drafts, hdrafts, -, hread⟩ := rereads_packAll hr (by decide) hblank
  exact ⟨source, drafts, hr, hdrafts, hread⟩

/-- A record with tag zero is handed out from one block, but not from two blocks with room for one
octet each. -/
theorem loses_unsigned :
    let r : Record := ⟨1, ⟨0⟩, [1, 2], {}, 0⟩
    let blank (i : Nat) : DraftBlock := { capacity := 13, session := {}, number := i.toUInt32 }
    (∃ source, Call.answers (Assembler.calls [source]).2 = [.ok r]) ∧
    (∀ i, (blank i).IsBlank 13) ∧
    ∃ drafts, packAll blank 0 (.whole r) = some drafts ∧
      ∃ loaded, List.Forall₂ LoadedAs drafts loaded ∧
        ∀ s, .ok s ∈ Call.answers (Assembler.calls loaded).2 → s.payload ≠ r.payload := by
  intro r blank
  have hblank (i : Nat) : (blank i).IsBlank 13 := isBlank_new ..
  have hroom : HeaderLayout.bb03.recordHeaderLength + 1 = 13 := rfl
  obtain ⟨drafts, hdrafts, hbears, hread⟩ :=
    exists_packAll hroom (by decide) hblank 0 (.whole r) (by decide)
  have hloaded : List.Forall₂ LoadedAs drafts
      (drafts.map fun d => ⟨d.header, 0, d.payload⟩) := by
    rw [List.forall₂_map_right_iff, List.forall₂_same]
    intro d hd
    obtain ⟨j, p, hp, -⟩ := hbears d hd
    exact hp.loadedAs
  refine ⟨Assembler.exists_answers (by decide) (by decide), hblank, drafts, hdrafts, _, hloaded,
    fun s hs hpayload => ?_⟩
  obtain ⟨hspread, b, bs, hcons, -, -⟩ := hread _ hloaded
  rw [hcons] at hs hspread
  have hanswers := Assembler.answers_spread hspread (by decide) rfl (by decide) (by decide)
  rw [if_pos (by decide)] at hanswers
  obtain ⟨errors, last, hanswers, -, -, -, hshort⟩ := hanswers
  rw [hanswers] at hs
  rcases List.mem_append.mp hs with hs | hs
  · obtain ⟨e, -, he⟩ := List.mem_map.mp hs
    cases he
  · cases List.mem_singleton.mp hs
    exact Nat.ne_of_lt hshort (congrArg List.length hpayload)

end DraftBlock
end BackupVolume
