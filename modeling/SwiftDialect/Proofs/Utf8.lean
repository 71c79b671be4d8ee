import Mathlib.Data.List.Basic
import Mathlib.Tactic.SplitIfs
import SwiftDialect.Text.Utf8

/-!
# What lossy decoding means

A sequence of bytes is *viable* if the encoding of some character begins with it. Lossy decoding
reads characters off their encodings; where none comes next, the longest viable piece, or a single
byte that no encoding begins with, is ill formed and becomes the replacement character. `Lossy` says
this in terms of encodings alone.

Main statement: `decodeLossy` is the one decoding that `Lossy` allows (`lossy_iff`). It rests on two
facts about a leading byte with continuation bytes within its bounds: together they are the encoding
of the character whose bits they carry (`encode_of_extends`), and every encoding is such a sequence
(`exists_lead`).
-/

namespace SwiftDialect.Utf8

/-- The encoding of some character begins with these bytes. -/
def Viable (bytes : List UInt8) : Prop :=
  ∃ c more, String.utf8EncodeChar c = bytes ++ more

/-- The bytes of `unit` are ill formed where `rest` follows them, and they belong together. -/
structure IllFormed (unit rest : List UInt8) : Prop where
  nonempty : unit ≠ []
  /-- Only a single byte may be something that no encoding begins with. -/
  viable : unit.length = 1 ∨ Viable unit
  /-- The next byte does not belong to the same unit. -/
  maximal : ∀ b more, rest = b :: more → ¬Viable (unit ++ [b])
  /-- No character comes next. -/
  noChar : ∀ c more, unit ++ rest ≠ String.utf8EncodeChar c ++ more

/-- The characters are what the bytes stand for, with one replacement character for each unit that
is ill formed. -/
inductive Lossy : List UInt8 → List Char → Prop where
  | done : Lossy [] []
  | char (c : Char) {rest : List UInt8} {cs : List Char} (h : Lossy rest cs) :
      Lossy (String.utf8EncodeChar c ++ rest) (c :: cs)
  | illFormed {unit rest : List UInt8} {cs : List Char} (hunit : IllFormed unit rest)
      (h : Lossy rest cs) : Lossy (unit ++ rest) (replacement :: cs)

/-! ### Leading bytes and their bounds -/

namespace Lead

/-- The lead after some continuation bytes. -/
def pushAll (lead : Lead) (bytes : List UInt8) : Lead :=
  bytes.foldl push lead

/-- Can each of the bytes continue the sequence when its turn comes? -/
def Extends (lead : Lead) : List UInt8 → Prop
  | [] => True
  | byte :: rest => lead.continues byte ∧ (lead.push byte).Extends rest

/-- The bounds of a lead leave room for a byte. -/
def Open (lead : Lead) : Prop :=
  lead.low ≤ lead.high ∧ lead.low < 256

theorem open_mk (follow bits : Nat) : Open { follow, bits } := by
  simp [Open]

end Lead

theorem Lead.extends_append (xs ys : List UInt8) : ∀ lead : Lead,
    lead.Extends (xs ++ ys) ↔ lead.Extends xs ∧ (lead.pushAll xs).Extends ys := by
  induction xs with
  | nil => simp [Lead.Extends, Lead.pushAll]
  | cons x xs ih =>
    intro lead
    rw [List.cons_append, Lead.Extends, ih, Lead.Extends, and_assoc]
    rfl

theorem lead?_one {b : UInt8} (h : b.toNat ≤ 0x7F) :
    lead? b = some { follow := 0, bits := b.toNat } := by
  simp [lead?, h]

theorem lead?_two {b : UInt8} (h : 0xC2 ≤ b.toNat) (h' : b.toNat ≤ 0xDF) :
    lead? b = some { follow := 1, bits := b.toNat - 0xC0 } := by
  simp only [lead?]
  rw [if_neg (by omega), if_neg (by omega), if_pos h']

theorem lead?_three {b : UInt8} (h : 0xE0 ≤ b.toNat) (h' : b.toNat ≤ 0xEF) :
    ∃ lead, lead? b = some lead ∧ lead.follow = 2 ∧ lead.Open ∧ lead.bits = b.toNat - 0xE0 ∧
      ∀ x : UInt8, lead.continues x ↔ 0x80 ≤ x.toNat ∧ x.toNat ≤ 0xBF ∧
        0x20 ≤ lead.bits * 64 + (x.toNat - 0x80) ∧
        ¬(0x360 ≤ lead.bits * 64 + (x.toNat - 0x80) ∧ lead.bits * 64 + (x.toNat - 0x80) ≤ 0x37F) := by
  simp only [lead?]
  rw [if_neg (by omega), if_neg (by omega), if_neg (by omega)]
  -- the bounds of one lead exclude overlong forms, those of another one surrogates
  split_ifs with h1 h2
  · refine ⟨_, rfl, rfl, ⟨by decide, by decide⟩, by rw [h1], fun x => ?_⟩
    simp only [Lead.continues, Bool.and_eq_true, decide_eq_true_eq]
    omega
  · refine ⟨_, rfl, rfl, ⟨by decide, by decide⟩, by rw [h2], fun x => ?_⟩
    simp only [Lead.continues, Bool.and_eq_true, decide_eq_true_eq]
    omega
  · refine ⟨_, rfl, rfl, Lead.open_mk _ _, rfl, fun x => ?_⟩
    simp only [Lead.continues, Bool.and_eq_true, decide_eq_true_eq]
    omega

theorem lead?_four {b : UInt8} (h : 0xF0 ≤ b.toNat) (h' : b.toNat ≤ 0xF4) :
    ∃ lead, lead? b = some lead ∧ lead.follow = 3 ∧ lead.Open ∧ lead.bits = b.toNat - 0xF0 ∧
      ∀ x : UInt8, lead.continues x ↔ 0x80 ≤ x.toNat ∧ x.toNat ≤ 0xBF ∧
        0x10 ≤ lead.bits * 64 + (x.toNat - 0x80) ∧ lead.bits * 64 + (x.toNat - 0x80) ≤ 0x10F := by
  simp only [lead?]
  rw [if_neg (by omega), if_neg (by omega), if_neg (by omega), if_neg (by omega), if_neg (by omega),
    if_neg (by omega)]
  split_ifs with h1 h2 h3
  · refine ⟨_, rfl, rfl, ⟨by decide, by decide⟩, by rw [h1], fun x => ?_⟩
    simp only [Lead.continues, Bool.and_eq_true, decide_eq_true_eq]
    omega
  · refine ⟨_, rfl, rfl, Lead.open_mk _ _, rfl, fun x => ?_⟩
    simp only [Lead.continues, Bool.and_eq_true, decide_eq_true_eq]
    omega
  · refine ⟨_, rfl, rfl, ⟨by decide, by decide⟩, by rw [h3], fun x => ?_⟩
    simp only [Lead.continues, Bool.and_eq_true, decide_eq_true_eq]
    omega
  · omega

theorem lead?_none {b : UInt8} (h : 0x7F < b.toNat) (h' : b.toNat < 0xC2 ∨ 0xF4 < b.toNat) :
    lead? b = none := by
  simp only [lead?]
  rw [if_neg (by omega)]
  rcases h' with hlow | hhigh
  · rw [if_pos hlow]
  · rw [if_neg (by omega), if_neg (by omega), if_neg (by omega), if_neg (by omega),
      if_neg (by omega), if_neg (by omega), if_neg (by omega), if_neg (by omega)]

/-- The ranges of leading bytes. -/
theorem lead?_range {b : UInt8} {lead : Lead} (h : lead? b = some lead) :
    b.toNat ≤ 0x7F ∨ (0xC2 ≤ b.toNat ∧ b.toNat ≤ 0xDF) ∨ (0xE0 ≤ b.toNat ∧ b.toNat ≤ 0xEF) ∨
      (0xF0 ≤ b.toNat ∧ b.toNat ≤ 0xF4) := by
  by_contra hout
  rw [lead?_none (by omega) (by omega)] at h
  cases h

/-- Later continuation bytes are in `80`–`BF`. -/
theorem Lead.continues_push (lead : Lead) (byte x : UInt8) :
    (lead.push byte).continues x ↔ 0x80 ≤ x.toNat ∧ x.toNat ≤ 0xBF := by
  change (decide (0x80 ≤ x.toNat) && decide (x.toNat ≤ 0xBF)) = true ↔ _
  rw [Bool.and_eq_true, decide_eq_true_iff, decide_eq_true_iff]

theorem toNat_ofNat_of_valid {n : Nat} (h : n.isValidChar) : (Char.ofNat n).val.toNat = n := by
  rw [show Char.ofNat n = Char.ofNatAux n h from dif_pos h]
  rfl

/-! ### Encodings -/

/-- A sequence that a leading byte and its continuation bytes make up is the encoding of the
character whose bits they carry. -/
theorem encode_of_extends {b : UInt8} {bs : List UInt8} {lead : Lead} (hlead : lead? b = some lead)
    (hlen : bs.length = lead.follow) (hext : lead.Extends bs) :
    String.utf8EncodeChar (Char.ofNat (lead.pushAll bs).bits) = b :: bs := by
  rcases lead?_range hlead with h | ⟨h, h'⟩ | ⟨h, h'⟩ | ⟨h, h'⟩
  · rw [lead?_one h, Option.some.injEq] at hlead
    subst hlead
    obtain rfl := List.eq_nil_of_length_eq_zero hlen
    have hval := toNat_ofNat_of_valid (n := b.toNat) (.inl (by omega))
    simp [Lead.pushAll, String.utf8EncodeChar, hval, h]
  · rw [lead?_two h h', Option.some.injEq] at hlead
    subst hlead
    obtain ⟨x, rfl⟩ := List.length_eq_one_iff.1 hlen
    have hx := hext.1
    simp only [Lead.continues, Bool.and_eq_true, decide_eq_true_eq] at hx
    have hval := toNat_ofNat_of_valid (n := (b.toNat - 0xC0) * 64 + (x.toNat - 0x80))
      (.inl (by omega))
    simp only [Lead.pushAll, List.foldl_cons, List.foldl_nil, Lead.push, String.utf8EncodeChar, hval]
    rw [if_neg (by omega), if_pos (by omega)]
    simp only [List.cons.injEq, ← UInt8.toNat_inj, UInt8.toNat_ofNat', Nat.reducePow, and_true]
    omega
  · obtain ⟨lead', hlead', hfollow, -, hbits, hcont⟩ := lead?_three h h'
    rw [hlead, Option.some.injEq] at hlead'
    subst hlead'
    rw [hfollow] at hlen
    obtain ⟨x, y, rfl⟩ := List.length_eq_two.1 hlen
    have hx := (hcont x).1 hext.1
    have hy := (lead.continues_push x y).1 hext.2.1
    have hval := toNat_ofNat_of_valid
      (n := (lead.bits * 64 + (x.toNat - 0x80)) * 64 + (y.toNat - 0x80)) (by
        simp only [Nat.isValidChar]
        omega)
    simp only [Lead.pushAll, List.foldl_cons, List.foldl_nil, Lead.push, String.utf8EncodeChar, hval]
    rw [if_neg (by omega), if_neg (by omega), if_pos (by omega)]
    simp only [List.cons.injEq, ← UInt8.toNat_inj, UInt8.toNat_ofNat', Nat.reducePow, and_true]
    omega
  · obtain ⟨lead', hlead', hfollow, -, hbits, hcont⟩ := lead?_four h h'
    rw [hlead, Option.some.injEq] at hlead'
    subst hlead'
    rw [hfollow] at hlen
    obtain ⟨x, y, z, rfl⟩ := List.length_eq_three.1 hlen
    have hx := (hcont x).1 hext.1
    have hy := (lead.continues_push x y).1 hext.2.1
    have hz := ((lead.push x).continues_push y z).1 hext.2.2.1
    have hval := toNat_ofNat_of_valid
      (n := ((lead.bits * 64 + (x.toNat - 0x80)) * 64 + (y.toNat - 0x80)) * 64 + (z.toNat - 0x80))
      (.inr (by omega))
    simp only [Lead.pushAll, List.foldl_cons, List.foldl_nil, Lead.push, String.utf8EncodeChar, hval]
    rw [if_neg (by omega), if_neg (by omega), if_neg (by omega)]
    simp only [List.cons.injEq, ← UInt8.toNat_inj, UInt8.toNat_ofNat', Nat.reducePow, and_true]
    omega

/-- The encoding of a character is a leading byte with continuation bytes that carry its bits. -/
theorem exists_lead (c : Char) : ∃ b bs lead, String.utf8EncodeChar c = b :: bs ∧
    lead? b = some lead ∧ bs.length = lead.follow ∧ lead.Extends bs ∧
      (lead.pushAll bs).bits = c.toNat := by
  -- the bounds of the four lengths, and the surrogates in between, as arithmetic of the code point
  have hvalid := c.valid
  simp only [UInt32.isValidChar, Nat.isValidChar] at hvalid
  rw [String.utf8EncodeChar, Char.toNat]
  generalize c.val.toNat = v at hvalid ⊢
  split_ifs with h1 h2 h3
  · have hb : (UInt8.ofNat v).toNat = v := by
      rw [UInt8.toNat_ofNat']; omega
    refine ⟨_, [], _, rfl, lead?_one (by omega), rfl, trivial, ?_⟩
    exact hb
  · have hb : (UInt8.ofNat (v / 64 % 32 + 192)).toNat = v / 64 + 192 := by
      rw [UInt8.toNat_ofNat']; omega
    have hx : (UInt8.ofNat (v % 64 + 128)).toNat = v % 64 + 128 := by
      rw [UInt8.toNat_ofNat']; omega
    refine ⟨_, _, _, rfl, lead?_two (by omega) (by omega), rfl, ⟨?_, trivial⟩, ?_⟩
    · simp only [Lead.continues, Bool.and_eq_true, decide_eq_true_eq, hx]
      omega
    · simp only [Lead.pushAll, List.foldl_cons, List.foldl_nil, Lead.push, hb, hx]
      omega
  · have hb : (UInt8.ofNat (v / 4096 % 16 + 224)).toNat = v / 4096 + 224 := by
      rw [UInt8.toNat_ofNat']; omega
    have hx : (UInt8.ofNat (v / 64 % 64 + 128)).toNat = v / 64 % 64 + 128 := by
      rw [UInt8.toNat_ofNat']; omega
    have hy : (UInt8.ofNat (v % 64 + 128)).toNat = v % 64 + 128 := by
      rw [UInt8.toNat_ofNat']; omega
    obtain ⟨lead, hlead, hfollow, -, hbits, hcont⟩ :=
      lead?_three (b := UInt8.ofNat (v / 4096 % 16 + 224)) (by omega) (by omega)
    refine ⟨_, _, lead, rfl, hlead, hfollow.symm, ⟨(hcont _).2 ?_,
      (lead.continues_push _ _).2 ?_, trivial⟩, ?_⟩
    · rw [hbits, hb, hx]
      omega
    · omega
    · simp only [Lead.pushAll, List.foldl_cons, List.foldl_nil, Lead.push, hbits, hb, hx, hy]
      omega
  · have hb : (UInt8.ofNat (v / 262144 % 8 + 240)).toNat = v / 262144 + 240 := by
      rw [UInt8.toNat_ofNat']; omega
    have hx : (UInt8.ofNat (v / 4096 % 64 + 128)).toNat = v / 4096 % 64 + 128 := by
      rw [UInt8.toNat_ofNat']; omega
    have hy : (UInt8.ofNat (v / 64 % 64 + 128)).toNat = v / 64 % 64 + 128 := by
      rw [UInt8.toNat_ofNat']; omega
    have hz : (UInt8.ofNat (v % 64 + 128)).toNat = v % 64 + 128 := by
      rw [UInt8.toNat_ofNat']; omega
    obtain ⟨lead, hlead, hfollow, -, hbits, hcont⟩ :=
      lead?_four (b := UInt8.ofNat (v / 262144 % 8 + 240)) (by omega) (by omega)
    refine ⟨_, _, lead, rfl, hlead, hfollow.symm, ⟨(hcont _).2 ?_,
      (lead.continues_push _ _).2 ?_, ((lead.push _).continues_push _ _).2 ?_, trivial⟩, ?_⟩
    · rw [hbits, hb, hx]
      omega
    · omega
    · omega
    · simp only [Lead.pushAll, List.foldl_cons, List.foldl_nil, Lead.push, hbits, hb, hx, hy, hz]
      omega

/-! ### Viable sequences -/

theorem lead?_open {b : UInt8} {lead : Lead} (h : lead? b = some lead) : lead.Open := by
  rcases lead?_range h with hb | ⟨hb, hb'⟩ | ⟨hb, hb'⟩ | ⟨hb, hb'⟩
  · obtain rfl := Option.some.inj ((lead?_one hb).symm.trans h)
    exact Lead.open_mk _ _
  · obtain rfl := Option.some.inj ((lead?_two hb hb').symm.trans h)
    exact Lead.open_mk _ _
  · obtain ⟨lead', hlead', -, hopen, -⟩ := lead?_three hb hb'
    rwa [Option.some.inj (h.symm.trans hlead')]
  · obtain ⟨lead', hlead', -, hopen, -⟩ := lead?_four hb hb'
    rwa [Option.some.inj (h.symm.trans hlead')]

theorem Lead.open_push (lead : Lead) (byte : UInt8) : (lead.push byte).Open :=
  Lead.open_mk _ _

theorem Lead.open_pushAll (bytes : List UInt8) : ∀ {lead : Lead}, lead.Open →
    (lead.pushAll bytes).Open := by
  induction bytes with
  | nil => exact fun h => h
  | cons b bytes ih => exact fun {lead} _ => ih (lead.open_push b)

/-- Any number of continuation bytes can follow. -/
theorem Lead.exists_extends (n : Nat) : ∀ {lead : Lead}, lead.Open →
    ∃ bytes, bytes.length = n ∧ lead.Extends bytes := by
  induction n with
  | zero => exact fun _ => ⟨[], rfl, trivial⟩
  | succ n ih =>
    intro lead hopen
    obtain ⟨bytes, hlen, hext⟩ := ih (lead.open_push (UInt8.ofNat lead.low))
    refine ⟨UInt8.ofNat lead.low :: bytes, by rw [List.length_cons, hlen], ?_, hext⟩
    have hval : (UInt8.ofNat lead.low).toNat = lead.low := UInt8.toNat_ofNat_of_lt' hopen.2
    simp only [Lead.continues, hval, Nat.le_refl, decide_true, Bool.true_and]
    exact decide_eq_true hopen.1

/-- A sequence is viable if it starts with a leading byte and no more than the continuation bytes that
this byte asks for, each within its bounds. -/
theorem viable_cons {b : UInt8} {bs : List UInt8} : Viable (b :: bs) ↔
    ∃ lead, lead? b = some lead ∧ bs.length ≤ lead.follow ∧ lead.Extends bs := by
  constructor
  · rintro ⟨c, more, h⟩
    obtain ⟨b', bs', lead, henc, hlead, hlen, hext, -⟩ := exists_lead c
    rw [henc, List.cons_append, List.cons.injEq] at h
    obtain ⟨rfl, rfl⟩ := h
    rw [List.length_append] at hlen
    exact ⟨lead, hlead, by omega, ((lead.extends_append bs more).1 hext).1⟩
  · rintro ⟨lead, hlead, hlen, hext⟩
    -- there are continuation bytes for every lead that is not complete yet
    obtain ⟨more, hmore, hext'⟩ := Lead.exists_extends (lead.follow - bs.length)
      (Lead.open_pushAll bs (lead?_open hlead))
    have hfull : (bs ++ more).length = lead.follow := by
      rw [List.length_append]
      omega
    exact ⟨_, more, encode_of_extends hlead hfull ((lead.extends_append bs more).2 ⟨hext, hext'⟩)⟩

theorem Viable.append_left {xs ys : List UInt8} (h : Viable (xs ++ ys)) : Viable xs := by
  obtain ⟨c, more, h⟩ := h
  exact ⟨c, ys ++ more, by rw [h, List.append_assoc]⟩

/-! ### Decoding one unit -/

/-- Continuation bytes within the bounds are all collected. -/
theorem finish_of_extends (bs rest : List UInt8) : ∀ {lead : Lead}, lead.Extends bs →
    finish bs.length lead (bs ++ rest) = (some (Char.ofNat (lead.pushAll bs).bits), rest) := by
  induction bs with
  | nil => exact fun _ => rfl
  | cons b bs ih =>
    intro lead h
    rw [List.length_cons, List.cons_append, finish, if_pos h.1, ih h.2]
    rfl

/-- Collecting stops after the bytes that were asked for, or before a byte out of bounds. -/
theorem finish_spec (n : Nat) : ∀ (lead : Lead) (bytes : List UInt8),
    ∃ bs rest, bytes = bs ++ rest ∧ lead.Extends bs ∧
      (bs.length = n ∧ finish n lead bytes = (some (Char.ofNat (lead.pushAll bs).bits), rest) ∨
       bs.length < n ∧ finish n lead bytes = (none, rest) ∧
        ∀ b more, rest = b :: more → ¬(lead.pushAll bs).continues b) := by
  induction n with
  | zero => exact fun lead bytes => ⟨[], bytes, rfl, trivial, .inl ⟨rfl, rfl⟩⟩
  | succ n ih =>
    intro lead bytes
    cases bytes with
    | nil => exact ⟨[], [], rfl, trivial, .inr ⟨Nat.succ_pos n, rfl, fun _ _ h => by cases h⟩⟩
    | cons b bytes =>
      by_cases hb : lead.continues b
      · obtain ⟨bs, rest, rfl, hext, h⟩ := ih (lead.push b) bytes
        refine ⟨b :: bs, rest, rfl, ⟨hb, hext⟩, ?_⟩
        rw [finish, if_pos hb, List.length_cons]
        rcases h with ⟨hlen, hfin⟩ | ⟨hlen, hfin, hstop⟩
        · exact .inl ⟨by rw [hlen], hfin⟩
        · exact .inr ⟨Nat.succ_lt_succ hlen, hfin, hstop⟩
      · refine ⟨[], b :: bytes, rfl, trivial, .inr ⟨Nat.succ_pos n, ?_, ?_⟩⟩
        · rw [finish, if_neg hb]
        · intro b' more h
          rw [← (List.cons.inj h).1]
          exact hb

/-- The encoding of a character is decoded, whatever follows it. -/
theorem decodeOne_encode (c : Char) (rest : List UInt8) : ∃ b bs,
    String.utf8EncodeChar c = b :: bs ∧ decodeOne b (bs ++ rest) = (some c, rest) := by
  obtain ⟨b, bs, lead, henc, hlead, hlen, hext, hbits⟩ := exists_lead c
  refine ⟨b, bs, henc, ?_⟩
  simp only [decodeOne, hlead]
  rw [← hlen, finish_of_extends bs rest hext, hbits, Char.ofNat_toNat]

/-- A byte that starts no encoding is ill formed by itself. -/
theorem illFormed_single {b : UInt8} (h : lead? b = none) (rest : List UInt8) :
    IllFormed [b] rest := by
  refine ⟨List.cons_ne_nil _ _, .inl rfl, ?_, ?_⟩
  · intro x more _ hv
    obtain ⟨lead, hlead, -⟩ := viable_cons.1 hv
    rw [h] at hlead
    cases hlead
  · intro c more heq
    obtain ⟨b', bs, lead, henc, hlead, -⟩ := exists_lead c
    rw [henc] at heq
    rw [← (List.cons.inj heq).1, h] at hlead
    cases hlead

/-- A leading byte with too few continuation bytes is ill formed. -/
theorem illFormed_cut {b : UInt8} {lead : Lead} (hlead : lead? b = some lead) {bs rest : List UInt8}
    (hext : lead.Extends bs) (hlt : bs.length < lead.follow)
    (hstop : ∀ x more, rest = x :: more → ¬(lead.pushAll bs).continues x) :
    IllFormed (b :: bs) rest := by
  refine ⟨List.cons_ne_nil _ _, .inr (viable_cons.2 ⟨lead, hlead, Nat.le_of_lt hlt, hext⟩), ?_, ?_⟩
  · intro x more hrest hv
    obtain ⟨lead', hlead', -, hext'⟩ := viable_cons.1 hv
    obtain rfl : lead = lead' := Option.some.inj (hlead.symm.trans hlead')
    exact hstop x more hrest ((lead.extends_append bs [x]).1 hext').2.1
  · intro c more heq
    obtain ⟨b', bs', lead', henc, hlead', hlen', hext', -⟩ := exists_lead c
    rw [henc, List.cons_append, List.cons_append, List.cons.injEq] at heq
    obtain ⟨rfl, heq⟩ := heq
    obtain rfl : lead = lead' := Option.some.inj (hlead.symm.trans hlead')
    -- the encoding is longer than what was collected, so it goes on with the byte that follows
    obtain ⟨tail, rfl, hrest⟩ : ∃ tail, bs' = bs ++ tail ∧ rest = tail ++ more := by
      rcases List.append_eq_append_iff.1 heq with ⟨t, h₁, h₂⟩ | ⟨t, h₁, h₂⟩
      · exact ⟨t, h₁, h₂⟩
      · have := congrArg List.length h₁
        rw [List.length_append] at this
        omega
    cases tail with
    | nil => simp at hlen'; omega
    | cons x tail => exact hstop x _ hrest ((lead.extends_append bs _).1 hext').2.1

/-- Decoding takes the encoding of a character off the bytes, or a unit that is ill formed. -/
theorem decodeOne_spec (b : UInt8) (bytes : List UInt8) :
    (∃ c rest, b :: bytes = String.utf8EncodeChar c ++ rest ∧ decodeOne b bytes = (some c, rest)) ∨
    (∃ unit rest, b :: bytes = unit ++ rest ∧ decodeOne b bytes = (none, rest) ∧
      IllFormed unit rest) := by
  unfold decodeOne
  cases hlead : lead? b with
  | none => exact .inr ⟨[b], bytes, rfl, rfl, illFormed_single hlead bytes⟩
  | some lead =>
    obtain ⟨bs, rest, rfl, hext, ⟨hlen, hfin⟩ | ⟨hlt, hfin, hstop⟩⟩ :=
      finish_spec lead.follow lead bytes
    · exact .inl ⟨_, rest, by rw [encode_of_extends hlead hlen hext]; rfl, hfin⟩
    · exact .inr ⟨b :: bs, rest, rfl, hfin, illFormed_cut hlead hext hlt hstop⟩

/-! ### Decoding everything -/

/-- A unit that is ill formed does not begin another one that is longer. -/
theorem IllFormed.length_le {unit rest unit' rest' : List UInt8} (h : IllFormed unit rest)
    (h' : IllFormed unit' rest') (heq : unit ++ rest = unit' ++ rest') :
    unit'.length ≤ unit.length := by
  refine Nat.le_of_not_lt fun hlt => ?_
  obtain ⟨t, rfl, hrest⟩ : ∃ t, unit' = unit ++ t ∧ rest = t ++ rest' := by
    rcases List.append_eq_append_iff.1 heq with ⟨t, h₁, h₂⟩ | ⟨t, h₁, h₂⟩
    · exact ⟨t, h₁, h₂⟩
    · have := congrArg List.length h₁
      rw [List.length_append] at this
      omega
  cases t with
  | nil => simp at hlt
  | cons x t =>
    have hpos := List.length_pos_of_ne_nil h.nonempty
    have hviable : Viable (unit ++ x :: t) := by
      refine h'.viable.resolve_left fun hone => ?_
      rw [List.length_append, List.length_cons] at hone
      omega
    refine h.maximal x _ hrest ?_
    have hlong : Viable ((unit ++ [x]) ++ t) := by simpa using hviable
    exact hlong.append_left

theorem IllFormed.unique {unit rest unit' rest' : List UInt8} (h : IllFormed unit rest)
    (h' : IllFormed unit' rest') (heq : unit ++ rest = unit' ++ rest') : rest = rest' :=
  (List.append_inj heq (Nat.le_antisymm (h'.length_le h heq.symm) (h.length_le h' heq))).2

theorem decodeLossy_nil : decodeLossy [] = [] := by
  simp [decodeLossy, units]

theorem decodeLossy_cons (b : UInt8) (bytes : List UInt8) : decodeLossy (b :: bytes) =
    (decodeOne b bytes).1.getD replacement :: decodeLossy (decodeOne b bytes).2 := by
  rw [decodeLossy, units, List.map_cons]
  rfl

theorem lossy_decodeLossy (bytes : List UInt8) : Lossy bytes (decodeLossy bytes) := by
  cases bytes with
  | nil =>
    rw [decodeLossy_nil]
    exact .done
  | cons b bytes =>
    have hle := decodeOne_length_le b bytes
    have ih := lossy_decodeLossy (decodeOne b bytes).2
    rw [decodeLossy_cons]
    rcases decodeOne_spec b bytes with ⟨c, rest, heq, hdec⟩ | ⟨unit, rest, heq, hdec, hill⟩
    · rw [hdec] at ih ⊢
      rw [heq]
      exact .char c ih
    · rw [hdec] at ih ⊢
      rw [heq]
      exact .illFormed hill ih
termination_by bytes.length
decreasing_by simp only [List.length_cons]; omega

theorem decodeLossy_encode_append (c : Char) (rest : List UInt8) :
    decodeLossy (String.utf8EncodeChar c ++ rest) = c :: decodeLossy rest := by
  obtain ⟨b, bs, henc, hdec⟩ := decodeOne_encode c rest
  rw [henc, List.cons_append, decodeLossy_cons, hdec]
  rfl

/-- Lossy decoding is the only decoding that replaces exactly the units that are ill formed. -/
theorem lossy_iff {bytes : List UInt8} {cs : List Char} :
    Lossy bytes cs ↔ cs = decodeLossy bytes := by
  constructor
  · intro h
    induction h with
    | done => exact decodeLossy_nil.symm
    | char c _ ih => rw [decodeLossy_encode_append, ih]
    | @illFormed unit rest cs hunit _ ih =>
      obtain ⟨b, bs, hb⟩ := List.exists_cons_of_ne_nil hunit.nonempty
      rcases decodeOne_spec b (bs ++ rest) with ⟨c, rest', heq, -⟩ | ⟨unit', rest', heq, hdec, hill⟩
      · exact absurd (by rw [hb, List.cons_append, heq]) (hunit.noChar c rest')
      · have hrest : rest = rest' := hunit.unique hill (by rw [hb, List.cons_append, heq])
        rw [hb, List.cons_append, decodeLossy_cons, hdec, ih, hrest]
        rfl
  · rintro rfl
    exact lossy_decodeLossy bytes

/-! ### The bytes of a text -/

theorem byteArray_toList (bytes : ByteArray) : bytes.toList = bytes.data.toList := by
  have hloop : ∀ (i : Nat) (r : List UInt8),
      ByteArray.toList.loop bytes i r = r.reverse ++ bytes.data.toList.drop i := by
    intro i r
    fun_induction ByteArray.toList.loop bytes i r with
    | case1 i r h ih =>
      have hi : i < bytes.data.toList.length := h
      rw [ih, List.drop_eq_getElem_cons hi, List.reverse_cons, List.append_assoc,
        List.singleton_append]
      simp [ByteArray.get!, h]
    | case2 i r h =>
      rw [List.drop_eq_nil_of_le (Nat.le_of_not_lt h), List.append_nil]
  exact hloop 0 []

/-- A text is encoded character by character. -/
theorem encode_eq_flatMap (text : String) : encode text = text.toList.flatMap String.utf8EncodeChar := by
  have h := String.toByteArray_ofList (l := text.toList)
  rw [String.ofList_toList] at h
  rw [encode, byteArray_toList, String.toUTF8_eq_toByteArray, h, List.utf8Encode,
    List.toList_data_toByteArray]

/-- Decoding the bytes of a text gives the text back. -/
theorem decodeLossy_encode (text : String) : decodeLossy (encode text) = text.toList := by
  rw [encode_eq_flatMap]
  induction text.toList with
  | nil => exact decodeLossy_nil
  | cons c cs ih => rw [List.flatMap_cons, decodeLossy_encode_append, ih]

end SwiftDialect.Utf8
