import Bolt8.Proofs.Ledger
import Bolt8.Proofs.Transport.Schedule

/-!
# Where a channel seals

A channel in use, with every text that it has sealed. A key is told by the
number of rotations before it, so the texts lie in one sequence of places, 1000
to an epoch, and the places used are an initial part of it without a gap.
-/

namespace Bolt8

namespace RotatingKey

/-- A use of the key to seal, under this name. -/
def sealing (k : RotatingKey) (name : KeyName) (plain : Bytes) : Sealing :=
  ⟨name, k.key, k.counter, [], plain⟩

/-- How many rotations come with the next use. -/
def turns (k : RotatingKey) : ℕ := if k.counter + 1 = rotationInterval then 1 else 0

end RotatingKey

/-- A call that sends nothing leaves the sending key alone. -/
theorem Channel.sending_after {c : Channel} {d : Call} (h : c.sentBy d = []) :
    (c.after d).sending = c.sending := by
  have hdoes := does_use c d
  show (c.use d).channel.sending = c.sending
  have hsent : (c.use d).sent = [] := h
  generalize c.use d = out at hdoes hsent ⊢
  cases hdoes with
  | send => cases hsent
  | receive | neither => rfl

/-- A channel, how often its sending key was rotated, and what it has sealed. -/
structure Dispatch where
  channel : Channel
  epoch : ℕ
  sealings : List Sealing

namespace Dispatch

def start (c : Channel) : Dispatch := ⟨c, 0, []⟩

/-- The texts that a call seals. -/
def sealedBy (sender : Role) (d : Dispatch) : Channel.Call → List Sealing
  | .encrypt message =>
    let k := d.channel.sending
    if maxMessageSize < message.length then []
    else
      [k.sealing (.transport sender d.epoch) (Bytes.ofNatBE 2 message.length),
        k.advance.sealing (.transport sender (d.epoch + k.turns)) message]
  | .decryptLength _ | .decryptMessage _ | .decryptFrame _ => []

/-- The rotations that a call brings about. -/
def turnsBy (d : Dispatch) : Channel.Call → ℕ
  | .encrypt message =>
    let k := d.channel.sending
    if maxMessageSize < message.length then 0 else k.turns + k.advance.turns
  | .decryptLength _ | .decryptMessage _ | .decryptFrame _ => 0

def call (sender : Role) (d : Dispatch) (c : Channel.Call) : Dispatch :=
  ⟨d.channel.after c, d.epoch + d.turnsBy c, d.sealings ++ d.sealedBy sender c⟩

/-- What is booked for a message is its frame. -/
theorem flatten_sealedBy {sender : Role} {d : Dispatch} {message frame : Bytes}
    (h : (d.channel.encrypt message).result = .ok frame) :
    ((d.sealedBy sender (.encrypt message)).map Sealing.bytes).flatten = frame := by
  by_cases hlarge : maxMessageSize < message.length
  · rw [Channel.encrypt, if_pos hlarge] at h
    cases h
  · rw [Channel.encrypt_eq _ (Nat.le_of_not_lt hlarge)] at h
    rw [sealedBy, if_neg hlarge, ← Except.ok.inj h]
    simp only [List.map_cons, List.map_nil, List.flatten_cons, List.flatten_nil, List.append_nil]
    rfl

/-- The place of this number in a direction. -/
def place (sender : Role) (n : ℕ) : KeyName × UInt64 :=
  (.transport sender (n / 1000), .ofNat (n % 1000))

/-- After `n` frames: the first `2 * n` places have been used, under the keys of the schedule. -/
structure Placed (sender : Role) (key : Aead.Key) (chainingKey : Digest) (n : ℕ) (d : Dispatch) :
    Prop where
  sending : d.channel.sending = .scheduled key chainingKey n
  epoch : d.epoch = n / 500
  places : d.sealings.map Sealing.place = (List.range (2 * n)).map (place sender)
  keys : ∀ s ∈ d.sealings, s.key = (schedule key chainingKey s.name.index).second

variable {sender : Role} {key : Aead.Key} {chainingKey : Digest} {n : ℕ} {d : Dispatch}

theorem placed_start {c : Channel} (h : c.sending = .start key chainingKey) :
    Placed sender key chainingKey 0 (start c) :=
  ⟨h, rfl, rfl, nofun⟩

/-! ## One frame -/

theorem toNat_counter {m : ℕ} (h : m < 1000) : (UInt64.ofNat m).toNat = m :=
  UInt64.toNat_ofNat_of_lt' (Nat.lt_trans h (by decide))

theorem ofNat_add_one_eq_interval {m : ℕ} (h : m < 1000) :
    UInt64.ofNat m + 1 = rotationInterval ↔ m = 999 := by
  rw [← UInt64.toNat_inj, UInt64.toNat_add, toNat_counter h]
  show (m + 1) % 2 ^ 64 = 1000 ↔ m = 999
  omega

/-- A key rotates after every 500th frame, and at no other time. -/
theorem turns_scheduled (n : ℕ) :
    (RotatingKey.scheduled key chainingKey n).turns = 0 ∧
      n / 500 + (RotatingKey.scheduled key chainingKey n).advance.turns = (n + 1) / 500 := by
  have hlt := Nat.mod_lt n (show 0 < 500 by decide)
  have hfirst : UInt64.ofNat (2 * (n % 500)) + 1 = rotationInterval ↔ _ :=
    ofNat_add_one_eq_interval (by omega)
  have hsecond : UInt64.ofNat (2 * (n % 500) + 1) + 1 = rotationInterval ↔ _ :=
    ofNat_add_one_eq_interval (by omega)
  rw [RotatingKey.advance_scheduled]
  simp only [RotatingKey.turns, RotatingKey.scheduled, hfirst, hsecond]
  refine ⟨if_neg (by omega), ?_⟩
  split <;> omega

/-- A frame takes the next two places. -/
theorem sealedBy_scheduled (h : Placed sender key chainingKey n d) {message : Bytes}
    (hfits : message.length ≤ maxMessageSize) :
    let k := (schedule key chainingKey (n / 500)).second
    d.sealedBy sender (.encrypt message) =
      [⟨.transport sender (n / 500), k, .ofNat (2 * (n % 500)), [],
          Bytes.ofNatBE 2 message.length⟩,
        ⟨.transport sender (n / 500), k, .ofNat (2 * (n % 500) + 1), [], message⟩] := by
  simp only [sealedBy, if_neg (Nat.not_lt_of_le hfits), h.sending, h.epoch,
    (turns_scheduled n).1, RotatingKey.advance_scheduled]
  rfl

theorem place_two_mul (sender : Role) (n : ℕ) :
    place sender (2 * n) = (.transport sender (n / 500), .ofNat (2 * (n % 500))) ∧
      place sender (2 * n + 1) = (.transport sender (n / 500), .ofNat (2 * (n % 500) + 1)) := by
  have hepoch : 2 * n / 1000 = n / 500 ∧ (2 * n + 1) / 1000 = n / 500 := by omega
  have hcounter : 2 * n % 1000 = 2 * (n % 500) ∧ (2 * n + 1) % 1000 = 2 * (n % 500) + 1 := by omega
  simp only [place, hepoch, hcounter, and_self]

theorem placed_encrypt (h : Placed sender key chainingKey n d) {message : Bytes}
    (hfits : message.length ≤ maxMessageSize) :
    Placed sender key chainingKey (n + 1) (d.call sender (.encrypt message)) where
  sending := by
    simp only [call, Channel.after, Channel.encrypt_eq _ hfits, h.sending]
    exact RotatingKey.advance_advance_scheduled n
  epoch := by
    simp only [call, turnsBy, if_neg (Nat.not_lt_of_le hfits), h.sending, h.epoch,
      (turns_scheduled n).1, Nat.zero_add]
    exact (turns_scheduled n).2
  places := by
    have hrange : List.range (2 * (n + 1)) = List.range (2 * n) ++ [2 * n, 2 * n + 1] := by
      rw [Nat.mul_succ, List.range_succ, List.range_succ, List.append_assoc]
      rfl
    obtain ⟨hfirst, hsecond⟩ := place_two_mul sender n
    simp only [call, sealedBy_scheduled h hfits, hrange, List.map_append, h.places, List.map_cons,
      List.map_nil, hfirst, hsecond, Sealing.place]
  keys := by
    intro s hs
    simp only [call, sealedBy_scheduled h hfits, List.mem_append, List.mem_cons, List.not_mem_nil,
      or_false] at hs
    rcases hs with hs | rfl | rfl
    · exact h.keys s hs
    · rfl
    · rfl

/-- Any other call seals nothing. -/
theorem placed_call (h : Placed sender key chainingKey n d) (c : Channel.Call) :
    ∃ n', Placed sender key chainingKey n' (d.call sender c) := by
  have hother : d.sealedBy sender c = [] → d.turnsBy c = 0 →
      (d.channel.after c).sending = d.channel.sending →
      Placed sender key chainingKey n (d.call sender c) := by
    intro hsealed hturns hsending
    refine ⟨hsending.trans h.sending, ?_, ?_, ?_⟩ <;>
      simp only [call, hsealed, hturns, List.append_nil, Nat.add_zero]
    · exact h.epoch
    · exact h.places
    · exact h.keys
  cases c with
  | encrypt message =>
      by_cases hlarge : maxMessageSize < message.length
      · refine ⟨n, hother ?_ ?_ ?_⟩
        · simp only [sealedBy, if_pos hlarge]
        · simp only [turnsBy, if_pos hlarge]
        · simp only [Channel.after, Channel.encrypt, if_pos hlarge]
      · exact ⟨n + 1, placed_encrypt h (Nat.le_of_not_lt hlarge)⟩
  | decryptLength sealed | decryptMessage sealed | decryptFrame input =>
      exact ⟨n, hother rfl rfl (Channel.sending_after rfl)⟩

/-! ## The sequence of places -/

theorem before_of_placed (h : Placed sender key chainingKey n d) :
    d.sealings.Pairwise Sealing.Before := by
  have hplaces : (d.sealings.map Sealing.place).Pairwise fun p q =>
      p.1.index < q.1.index ∨ p.1.index = q.1.index ∧ p.2 < q.2 := by
    rw [h.places, List.pairwise_map]
    refine List.Pairwise.imp ?_ List.pairwise_lt_range
    intro m m' hlt
    have hcounter : ∀ m, (UInt64.ofNat (m % 1000)).toNat = m % 1000 :=
      fun m => toNat_counter (Nat.mod_lt m (by decide))
    simp only [place, KeyName.index, UInt64.lt_iff_toNat_lt, hcounter]
    omega
  rwa [List.pairwise_map] at hplaces

theorem place_of_placed (h : Placed sender key chainingKey n d) {s : Sealing}
    (hs : s ∈ d.sealings) : ∃ m < 2 * n, s.place = place sender m := by
  have hplace := List.mem_map_of_mem (f := Sealing.place) hs
  rw [h.places] at hplace
  obtain ⟨m, hm, heq⟩ := List.mem_map.1 hplace
  exact ⟨m, List.mem_range.1 hm, heq.symm⟩

theorem filter_epoch {epoch total : ℕ} (h : (epoch + 1) * 1000 ≤ total) :
    (List.range total).filter (fun m => m / 1000 = epoch) =
      (List.range 1000).map (epoch * 1000 + ·) := by
  obtain ⟨rest, rfl⟩ := Nat.exists_eq_add_of_le h
  rw [Nat.succ_mul, List.range_add, List.range_add, List.filter_append, List.filter_append,
    List.filter_eq_nil_iff.2, List.filter_eq_self.2, List.filter_eq_nil_iff.2, List.nil_append,
    List.append_nil]
  · simp only [List.mem_map, decide_eq_true_eq]
    rintro _ ⟨m, -, rfl⟩
    omega
  · simp only [List.mem_map, List.mem_range, decide_eq_true_eq]
    rintro _ ⟨m, hm, rfl⟩
    omega
  · simp only [List.mem_range, decide_eq_true_eq]
    omega

/-- An epoch that is over has used each of its counter values once, in their order. -/
theorem counters_of_placed (h : Placed sender key chainingKey n d) {epoch : ℕ}
    (hepoch : epoch < d.epoch) :
    (d.sealings.filter fun s => s.name = .transport sender epoch).map (·.counter.toNat) =
      List.range 1000 := by
  have htotal : (epoch + 1) * 1000 ≤ 2 * n := by
    rw [h.epoch] at hepoch
    omega
  calc (d.sealings.filter fun s => s.name = .transport sender epoch).map (·.counter.toNat)
      = ((d.sealings.map Sealing.place).filter fun p => p.1 = .transport sender epoch).map
          (·.2.toNat) := by
        rw [List.filter_map, List.map_map]
        rfl
    _ = ((List.range (2 * n)).filter fun m => m / 1000 = epoch).map
          fun m => (UInt64.ofNat (m % 1000)).toNat := by
        rw [h.places, List.filter_map, List.map_map]
        simp only [Function.comp_def, place, KeyName.transport.injEq, true_and]
    _ = (List.range 1000).map id := by
        rw [filter_epoch htotal, List.map_map]
        apply List.map_congr_left
        intro m hm
        have hlt := List.mem_range.1 hm
        have hmod : (epoch * 1000 + m) % 1000 = m := by omega
        simp only [Function.comp_apply, hmod]
        exact toNat_counter hlt
    _ = List.range 1000 := List.map_id _

end Dispatch

end Bolt8
