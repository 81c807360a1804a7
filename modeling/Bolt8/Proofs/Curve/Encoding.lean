import Bolt8.Curve.Encoding
import Bolt8.Proofs.Bytes
import Bolt8.Proofs.Curve.Field

/-!
# Reading a compressed point back

A point of the curve is determined by x and the parity of y: of the two roots
of x³ + 7 only one has this parity.
-/

namespace Bolt8.Curve

theorem Fe.ofBytes?_toBytes (x : Fe) : Fe.ofBytes? x.toBytes.val = some x := by
  have hlt : x.val < 256 ^ 32 := lt_of_lt_of_le x.isLt (by decide)
  have hval : Bytes.toNatBE x.toBytes.val = x.val := Bytes.toNatBE_ofNatBE hlt
  simp only [Fe.ofBytes?, hval]
  rw [dif_pos x.isLt]

namespace Point

theorem lift?_of_onCurve {P : Point} (h : P.OnCurve) : lift? P.x P.y.isOdd = some P := by
  obtain ⟨r, hr, hroot⟩ := Fe.sqrt?_mul_self P.y
  rw [lift?, ← h, hr, Option.map_some]
  have hy : (if r.isOdd = P.y.isOdd then r else -r) = P.y := by
    rcases hroot with rfl | rfl
    · rw [if_pos rfl]
    · by_cases h0 : P.y = 0
      · rw [h0]
        decide
      · rw [Fe.isOdd_neg h0, if_neg (by simp), neg_neg]
  rw [hy]

/-- Reading a compressed point of the curve gives it back. -/
theorem ofCompressed?_compress {P : Point} (h : P.OnCurve) :
    ofCompressed? P.compress.val = some P := by
  have hlen : P.x.toBytes.val.length = 32 := P.x.toBytes.property
  have hlift := lift?_of_onCurve h
  simp only [compress, ofCompressed?, Fe.ofBytes?_toBytes, Option.bind_some]
  cases hodd : P.y.isOdd with
  | false =>
      rw [hodd] at hlift
      simpa [hlen] using hlift
  | true =>
      rw [hodd] at hlift
      simpa [hlen] using hlift

end Point

end Bolt8.Curve
