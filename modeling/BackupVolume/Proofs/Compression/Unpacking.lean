import BackupVolume.Compression.Container
import Mathlib.Algebra.Group.Nat.Defs

/-! # Compressed data are unpacked

Growing room finds what a decompressor comes to, unless the cap is too low for it. What was wrapped in
a container goes to the codec that wrapped it.
-/
namespace BackupVolume.Compression

/-- A decompressor asks for more room where there is less than `need`, and comes to this result in
all other room. -/
def Settles (attempt : Nat → Except CodecError (Option Bytes)) (need : Nat)
    (result : Except CodecError Bytes) : Prop :=
  ∀ room, attempt room = if room < need then .ok none else result.map some

/-- The codec turns the packed octets into these data, and the cap leaves it the room for that. -/
def Codec.Restores (c : Codec) (cap : Nat) (packed data : Bytes) : Prop :=
  ∃ need ≤ cap, Settles (c.decompress packed) need (.ok data)

/-- How much room a codec asks for, and what it comes to where it has that room, depend on the packed
octets alone. -/
def Codec.IsSteady (c : Codec) : Prop :=
  ∀ packed, ∃ need answer, ∀ room,
    c.decompress packed room = if room < need then .ok none else answer

def Codecs.IsSteady (cs : Codecs) : Prop := cs.plain.IsSteady ∧ ∀ id, (cs.wrapped id).IsSteady

def Codec.answering (c : Codec) (answer : Bytes → Except CodecError Bytes) : Codec where
  compress := c.compress
  decompress packed room :=
    match answer packed with
    | .error e => .error e
    | .ok data => if room < data.length then .ok none else .ok (some data)

theorem Codec.isSteady_answering (c : Codec) (answer : Bytes → Except CodecError Bytes) :
    (c.answering answer).IsSteady := by
  intro packed
  rcases hanswer : answer packed with e | data
  · exact ⟨0, .error e, fun room => by simp [answering, hanswer]⟩
  · exact ⟨data.length, .ok (some data), fun room => by simp [answering, hanswer]⟩

def steadyZlib : Codec :=
  CodecId.zlib.codec.answering fun packed =>
    match CodecId.zlib.codec.decompress packed 70000 with
    | .error e => .error e
    | .ok (some data) => .ok data
    | .ok none => .error (.bufferExhausted 70000)

/-- An answer given in some room is given in all greater room. -/
def Lasts (attempt : Nat → Except CodecError (Option Bytes)) : Prop :=
  ∀ room more, room ≤ more → attempt room ≠ .ok none → attempt more = attempt room

theorem lasts_of_need {attempt : Nat → Except CodecError (Option Bytes)} {need : Nat}
    {answer : Except CodecError (Option Bytes)}
    (h : ∀ room, attempt room = if room < need then .ok none else answer) : Lasts attempt := by
  intro room more hle hgiven
  have henough : ¬room < need := by
    intro hless
    rw [h, if_pos hless] at hgiven
    exact hgiven rfl
  rw [h, h, if_neg henough, if_neg (by omega)]

theorem Codec.IsSteady.lasts {c : Codec} (h : c.IsSteady) (packed : Bytes) :
    Lasts (c.decompress packed) := by
  obtain ⟨need, answer, hanswer⟩ := h packed
  exact lasts_of_need hanswer

def Scratch.Grows (s t : Scratch) : Prop := s.size ≤ t.size ∧ t.cap = s.cap

theorem Scratch.Grows.refl (s : Scratch) : s.Grows s := ⟨Nat.le_refl _, rfl⟩

theorem Scratch.Grows.trans {s t u : Scratch} (h : s.Grows t) (h' : t.Grows u) : s.Grows u :=
  ⟨Nat.le_trans h.1 h'.1, h'.2.trans h.2⟩

theorem Scratch.grows_fit (attempt : Nat → Except CodecError (Option Bytes)) (s : Scratch) :
    s.Grows (s.fit attempt).2 := by
  fun_induction fit attempt s with
  | case1 s | case2 s | case4 s => exact .refl s
  | case3 s ha t hg ih =>
    obtain ⟨hsize, hcap⟩ := size_lt_of_grow? hg
    exact Grows.trans ⟨Nat.le_of_lt hsize, hcap⟩ ih

theorem Scratch.cap_fit (attempt : Nat → Except CodecError (Option Bytes)) (s : Scratch) :
    (s.fit attempt).2.cap = s.cap := (s.grows_fit attempt).2

/-- Growing room finds what all the room that the cap allows gives at once. -/
theorem Scratch.fst_fit {attempt : Nat → Except CodecError (Option Bytes)} (h : Lasts attempt)
    (s : Scratch) : (s.fit attempt).1 =
      match attempt s.cap with
      | .error e => .error e
      | .ok (some data) => .ok data
      | .ok none => .error (.bufferExhausted s.cap) := by
  fun_induction fit attempt s with
  | case1 s e ha =>
    rw [h s.size s.cap s.size_le_cap (by rw [ha]; exact nofun), ha]
  | case2 s data ha =>
    rw [h s.size s.cap s.size_le_cap (by rw [ha]; exact nofun), ha]
  | case3 s ha t hg ih => rw [ih, (size_lt_of_grow? hg).2]
  | case4 s ha hg =>
    have hfull : s.size = s.cap := by
      rw [grow?] at hg
      split at hg
      · have := s.size_le_cap
        omega
      · cases hg
    rw [← hfull, ha]

/-- The result is found exactly where the cap allows the room for it. -/
theorem Scratch.fit_of_settles {attempt : Nat → Except CodecError (Option Bytes)} {need : Nat}
    {result : Except CodecError Bytes} (h : Settles attempt need result) (s : Scratch) :
    ∃ t, s.fit attempt
        = (if need ≤ s.cap then result else .error (.bufferExhausted s.cap), t) ∧
      t.cap = s.cap := by
  refine ⟨_, Prod.ext ?_ rfl, s.cap_fit attempt⟩
  rw [s.fst_fit (lasts_of_need h), h]
  by_cases hneed : need ≤ s.cap
  · rw [if_neg (by omega), if_pos hneed]
    cases result <;> rfl
  · rw [if_pos (by omega), if_neg hneed]

def DependsOnCap (unpack : Scratch → Except CodecError Bytes × Scratch) : Prop :=
  ∀ s t, s.cap = t.cap → (unpack s).1 = (unpack t).1 ∧ (unpack s).2.cap = s.cap

theorem Codec.IsSteady.dependsOnCap {c : Codec} (h : c.IsSteady) (packed : Bytes) :
    DependsOnCap (Scratch.fit (c.decompress packed)) := by
  intro s t hcap
  refine ⟨?_, s.cap_fit _⟩
  rw [s.fst_fit (h.lasts packed), t.fst_fit (h.lasts packed), hcap]

theorem Codecs.IsSteady.inflate {cs : Codecs} (h : cs.IsSteady) (payload : Bytes) :
    DependsOnCap (cs.inflate payload) := h.1.dependsOnCap payload

theorem Codecs.IsSteady.unwrap {cs : Codecs} (h : cs.IsSteady) (payload : Bytes) :
    DependsOnCap (cs.unwrap payload) := by
  intro s t hcap
  rw [Codecs.unwrap, Codecs.unwrap]
  rcases Container.parse payload with e | ⟨head, body⟩
  · exact ⟨rfl, rfl⟩
  · simp only
    rcases head.codec with e | id
    · exact ⟨rfl, rfl⟩
    · exact (h.2 id).dependsOnCap body s t hcap

theorem Codecs.grows_unwrap (cs : Codecs) (payload : Bytes) (s : Scratch) :
    s.Grows (cs.unwrap payload s).2 := by
  unfold Codecs.unwrap
  split
  · exact .refl s
  · split
    · exact .refl s
    · exact s.grows_fit _

theorem Codec.Restores.fit {c : Codec} {s : Scratch} {packed data : Bytes}
    (h : c.Restores s.cap packed data) :
    ∃ t, s.fit (c.decompress packed) = (.ok data, t) ∧ t.cap = s.cap := by
  obtain ⟨need, hneed, hsettles⟩ := h
  obtain ⟨t, hfit, hcap⟩ := s.fit_of_settles hsettles
  rw [if_pos hneed] at hfit
  exact ⟨t, hfit, hcap⟩

namespace Container

theorem length_toBytes (c : Container) : c.toBytes.length = headerLength := by
  simp [toBytes, headerLength]

theorem ofHeader_toBytes (c : Container) (body : Bytes) : ofHeader (c.toBytes ++ body) = c := by
  simp [ofHeader, toBytes, Bytes.slice, List.drop_append, List.drop_of_length_le]

theorem parse_toBytes {c : Container} {body : Bytes} (hv : c.version = currentVersion)
    (hl : c.length.toNat = body.length) : parse (c.toBytes ++ body) = .ok (c, body) := by
  have hlength : (c.toBytes ++ body).length = headerLength + body.length := by
    rw [List.length_append, length_toBytes]
  have hbody : (c.toBytes ++ body).drop headerLength = body := List.drop_left' (length_toBytes c)
  simp only [parse, hlength, hbody, ofHeader_toBytes]
  rw [if_neg (by omega), if_neg (by simpa using hv), if_neg (by omega)]

end Container

theorem Codecs.unwrap_wrapWith (cs : Codecs) {id : CodecId} {magic : UInt32}
    (hm : id.magic? = some magic) (c : Codec) (level : Int) (data : Bytes)
    (hl : (c.compress data).length < 2 ^ 32) (s : Scratch) :
    cs.unwrap (Container.wrapWith c magic level data) s
      = s.fit ((cs.wrapped id).decompress (c.compress data)) := by
  have hlength : (c.compress data).length.toUInt32.toNat = (c.compress data).length := by
    rw [Nat.toUInt32, UInt32.toNat_ofNat']
    exact Nat.mod_eq_of_lt hl
  have hparse := Container.parse_toBytes (c := ⟨magic, (c.compress data).length.toUInt32,
    Container.storedLevel level, Container.currentVersion⟩) rfl hlength
  simp only [unwrap, Container.wrapWith, hparse, Container.codec, CodecId.ofMagic?_of_magic? hm]

/-- Why the content of a container cannot be had: the octets are no container, or one of an unknown
codec, or the codec does not come to a result in the room that the cap allows. -/
inductive Codecs.Refuses (cs : Codecs) (scratch : Scratch) (packed : Bytes) : CodecError → Prop
  | container {e : CodecError} : Container.parse packed = .error e →
      Refuses cs scratch packed e
  | magic {head : Container} {body : Bytes} {e : CodecError} :
      Container.parse packed = .ok (head, body) → head.codec = .error e →
      Refuses cs scratch packed e
  | content {head : Container} {body : Bytes} {id : CodecId} {e : CodecError} :
      Container.parse packed = .ok (head, body) → head.codec = .ok id →
      (scratch.fit ((cs.wrapped id).decompress body)).1 = .error e →
      Refuses cs scratch packed e

theorem Codecs.unwrap_error_iff {cs : Codecs} {scratch : Scratch} {packed : Bytes} {e : CodecError} :
    (cs.unwrap packed scratch).1 = .error e ↔ cs.Refuses scratch packed e := by
  unfold Codecs.unwrap
  constructor
  · intro h
    rcases hp : Container.parse packed with x | ⟨head, body⟩
    · rw [hp] at h
      cases h
      exact .container hp
    · rw [hp] at h
      dsimp only at h
      rcases hc : head.codec with x | id
      · rw [hc] at h
        cases h
        exact .magic hp hc
      · rw [hc] at h
        exact .content hp hc h
  · intro h
    cases h with
    | container hp => rw [hp]
    | magic hp hc => simp only [hp, hc]
    | content hp hc hfit => simp only [hp, hc, hfit]

end BackupVolume.Compression
