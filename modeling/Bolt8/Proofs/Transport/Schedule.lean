import Bolt8.Proofs.Transport.Calls

/-!
# The key schedule

The keys of one direction are fixed from the start: `schedule` lists them by
epoch, and `scheduled n` is the rotating key after `n` frames. Two steps of
the counter lead from one frame to the next, so in any run the two keys of a
channel are told by the numbers of messages sent and received alone.
-/

namespace Bolt8

/-- Chaining key and key of each epoch, in this order. -/
def schedule (key : Aead.Key) (chainingKey : Digest) : ℕ → Derived
  | 0 => ⟨chainingKey, key⟩
  | epoch + 1 =>
    let last := schedule key chainingKey epoch
    hkdf last.first last.second.val

namespace RotatingKey

/-- The key after `n` frames: 500 to an epoch, two counter values to each. -/
def scheduled (key : Aead.Key) (chainingKey : Digest) (n : ℕ) : RotatingKey :=
  let keys := schedule key chainingKey (n / 500)
  ⟨keys.second, keys.first, .ofNat (2 * (n % 500)), .ofNat (n / 500)⟩

variable {key : Aead.Key} {chainingKey : Digest}

theorem scheduled_zero : scheduled key chainingKey 0 = start key chainingKey := rfl

theorem toNat_counter_scheduled (n : ℕ) :
    (scheduled key chainingKey n).counter.toNat = 2 * (n % 500) := by
  have h : 2 * (n % 500) < UInt64.size := by
    have := Nat.mod_lt n (show 0 < 500 by decide)
    rw [UInt64.size]
    omega
  exact UInt64.toNat_ofNat_of_lt' h

theorem toNat_epoch_scheduled {n : ℕ} (h : n / 500 < UInt64.size) :
    (scheduled key chainingKey n).epoch.toNat = n / 500 :=
  UInt64.toNat_ofNat_of_lt' h

theorem atFrame_scheduled (n : ℕ) : (scheduled key chainingKey n).AtFrame := by
  have := Nat.mod_lt n (show 0 < 500 by decide)
  rw [AtFrame, toNat_counter_scheduled]
  omega

theorem advance_scheduled (n : ℕ) :
    (scheduled key chainingKey n).advance =
      { scheduled key chainingKey n with counter := .ofNat (2 * (n % 500) + 1) } := by
  rw [advance_eq (atFrame_scheduled n), UInt64.ofNat_add]
  rfl

/-- The next frame is the next of the epoch, or the first of the next epoch. -/
theorem advance_advance_scheduled (n : ℕ) :
    (scheduled key chainingKey n).advance.advance = scheduled key chainingKey (n + 1) := by
  have hcounter : UInt64.ofNat (2 * (n % 500) + 1) + 1 = .ofNat (2 * (n % 500) + 2) := by
    rw [UInt64.ofNat_add _ 2, UInt64.ofNat_add _ 1, UInt64.add_assoc]
    rfl
  rw [advance_scheduled, advance]
  simp only [hcounter]
  by_cases hlast : n % 500 = 499
  · have hepoch : (n + 1) / 500 = n / 500 + 1 := by omega
    have hfirst : (n + 1) % 500 = 0 := by omega
    have hall : UInt64.ofNat (2 * (n % 500) + 2) = rotationInterval := by rw [hlast]; rfl
    rw [if_pos hall]
    simp only [scheduled, rotate, hepoch, hfirst, schedule, UInt64.ofNat_add]
    rfl
  · have hepoch : (n + 1) / 500 = n / 500 := by omega
    have hnext : 2 * ((n + 1) % 500) = 2 * (n % 500) + 2 := by omega
    have hne : UInt64.ofNat (2 * (n % 500) + 2) ≠ rotationInterval := by
      intro heq
      have hlt : 2 * (n % 500) + 2 < UInt64.size := by
        rw [UInt64.size]
        omega
      have h := congrArg UInt64.toNat heq
      rw [UInt64.toNat_ofNat_of_lt' hlt] at h
      have : 2 * (n % 500) + 2 = 1000 := h
      omega
    rw [if_neg hne]
    simp only [scheduled, hepoch, hnext]

/-- Both texts of a frame are sealed under the key of one epoch. -/
theorem frame_scheduled (n : ℕ) (message : Bytes) :
    let k := (schedule key chainingKey (n / 500)).second
    (scheduled key chainingKey n).frame message =
      Aead.encrypt k (.ofNat (2 * (n % 500))) [] (Bytes.ofNatBE 2 message.length) ++
        Aead.encrypt k (.ofNat (2 * (n % 500) + 1)) [] message := by
  rw [frame, advance_scheduled]
  rfl

end RotatingKey

/-! ## In a run -/

open RotatingKey

namespace Usage

variable {u : Usage} {key : Aead.Key} {chainingKey : Digest}

theorem sending_call (h : u.channel.sending = scheduled key chainingKey u.sent.length)
    (d : Channel.Call) :
    (u.call d).channel.sending = scheduled key chainingKey (u.call d).sent.length := by
  have hdoes := Channel.does_use u.channel d
  unfold call
  generalize u.channel.use d = out at hdoes ⊢
  cases hdoes with
  | send =>
      rw [List.length_append]
      exact (congrArg (·.advance.advance) h).trans (advance_advance_scheduled _)
  | receive | neither =>
      simp only [List.append_nil]
      exact h

theorem receiving_call (h : u.channel.receiving = scheduled key chainingKey u.accepted.length)
    (d : Channel.Call) :
    (u.call d).channel.receiving = scheduled key chainingKey (u.call d).accepted.length := by
  have hdoes := Channel.does_use u.channel d
  unfold call
  generalize u.channel.use d = out at hdoes ⊢
  cases hdoes with
  | receive =>
      rw [List.length_append]
      exact (congrArg (·.advance.advance) h).trans (advance_advance_scheduled _)
  | send | neither =>
      simp only [List.append_nil]
      exact h

theorem run_scheduled (sendingKey receivingKey : Aead.Key) (chainingKey : Digest)
    (calls : List Channel.Call) :
    let u := (start (.ofKeys sendingKey receivingKey chainingKey)).run calls
    u.channel.sending = scheduled sendingKey chainingKey u.sent.length ∧
      u.channel.receiving = scheduled receivingKey chainingKey u.accepted.length := by
  induction calls using List.reverseRecOn with
  | nil =>
      exact ⟨scheduled_zero.symm, scheduled_zero.symm⟩
  | append_singleton calls d ih =>
      rw [run_snoc]
      exact ⟨sending_call ih.1 d, receiving_call ih.2 d⟩

/-- In every run the keys are those of the schedule, and the next message is
sealed under them; only its size can keep it from being sent. -/
theorem keys_on_schedule (sendingKey receivingKey : Aead.Key) (chainingKey : Digest)
    (calls : List Channel.Call) :
    let u := (start (.ofKeys sendingKey receivingKey chainingKey)).run calls
    let n := u.sent.length
    let k := (schedule sendingKey chainingKey (n / 500)).second
    u.channel.sending = scheduled sendingKey chainingKey n ∧
    u.channel.receiving = scheduled receivingKey chainingKey u.accepted.length ∧
    ∀ message : Bytes,
      if maxMessageSize < message.length then
        u.channel.encrypt message = ⟨.error (.messageTooLarge message.length), u.channel, []⟩
      else
        (u.channel.encrypt message).result = .ok
          (Aead.encrypt k (.ofNat (2 * (n % 500))) [] (Bytes.ofNatBE 2 message.length) ++
            Aead.encrypt k (.ofNat (2 * (n % 500) + 1)) [] message) := by
  intro u n k
  obtain ⟨hsending, hreceiving⟩ : u.channel.sending = scheduled sendingKey chainingKey n ∧
      u.channel.receiving = scheduled receivingKey chainingKey u.accepted.length :=
    run_scheduled sendingKey receivingKey chainingKey calls
  refine ⟨hsending, hreceiving, fun message => ?_⟩
  split
  · rename_i hlarge
    rw [Channel.encrypt, if_pos hlarge]
  · rename_i hfits
    rw [Channel.encrypt_eq _ (Nat.le_of_not_lt hfits), hsending, frame_scheduled]

end Usage

end Bolt8
