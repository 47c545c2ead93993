/-
Reading back what a writer wrote.
-/
import ZeroDds.Wire.Headers
import ZeroDds.Wire.Reader

namespace ZeroDds.Wire

def Reader.over (w : Writer) (stream : List UInt8) : Reader :=
  { w.toSettings with bytes := stream, place := w.out.length, origin := w.origin }

namespace Writer

variable {w w' : Writer} {stream octets : List UInt8}

theorem Extends.isPrefix (h : w.Extends octets w') : w.out <+: w'.out :=
  ⟨octets, h.out.symm⟩

theorem remaining_over (h : w.Extends octets w') (hstream : w'.out <+: stream) :
    octets.length ≤ (Reader.over w stream).remaining := by
  have hlength := hstream.length_le
  rw [h.length] at hlength
  show octets.length ≤ stream.length - w.out.length
  omega

theorem over_extend (w : Writer) (octets stream : List UInt8) :
    { Reader.over w stream with place := (Reader.over w stream).place + octets.length } =
      Reader.over (w.extend octets) stream := by
  simp [Reader.over, extend]

theorem over_alignTo {align : Nat} (h : (w.alignTo align).out <+: stream) :
    (Reader.over w stream).alignTo align = .ok (Reader.over (w.alignTo align) stream) := by
  have hroom := remaining_over (alignTo_extends w align) h
  have hmin : (if align < (Reader.over w stream).maxAlign then align
      else (Reader.over w stream).maxAlign) = min align w.maxAlign := by
    show (if align < w.maxAlign then align else w.maxAlign) = min align w.maxAlign
    split <;> omega
  have hoffset : (Reader.over w stream).place - (Reader.over w stream).origin = w.offset := rfl
  rw [alignTo_eq, ← over_extend]
  unfold Reader.alignTo
  simp only [hmin, hoffset]
  unfold padding at hroom ⊢
  simp only at hroom ⊢
  by_cases hsmall : min align w.maxAlign ≤ 1
  · simp only [if_pos hsmall, List.length_nil, Nat.add_zero]
  · rw [if_neg hsmall, List.length_replicate] at hroom
    simp only [if_neg hsmall, List.length_replicate]
    rw [if_neg (Nat.not_lt.mpr hroom)]

theorem over_take (h : (w.extend octets).out <+: stream) :
    (Reader.over w stream).take octets.length =
      .ok (octets, Reader.over (w.extend octets) stream) := by
  have hslice : slice (Reader.over w stream).bytes (Reader.over w stream).place octets.length =
      some octets := by
    obtain ⟨rest, rfl⟩ := h
    show slice (w.out ++ octets ++ rest) w.out.length octets.length = some octets
    rw [List.append_assoc]
    exact slice_at rfl rfl
  unfold Reader.take
  rw [hslice]
  exact congrArg (fun r => Except.ok (octets, r)) (over_extend w octets stream)

theorem over_readWord (e : Endianness) {width n : Nat} (hn : n < 256 ^ width)
    (h : ((w.alignTo width).extend (e.order width n)).out <+: stream) :
    (Reader.over w stream).readWord e width =
      .ok (n, Reader.over ((w.alignTo width).extend (e.order width n)) stream) := by
  have hpad := (extend_extends (w.alignTo width) (e.order width n)).isPrefix.trans h
  have hlength := Endianness.length_order e width n
  have htake := over_take h
  rw [hlength] at htake
  rw [Reader.readWord, over_alignTo hpad]
  show ((Reader.over (w.alignTo width) stream).take width).map _ = _
  rw [htake]
  show Except.ok (e.value (e.order width n), _) = _
  rw [Endianness.value_order e hn]

theorem over_readU8 {octet : UInt8} (h : (w.writeU8 octet).out <+: stream) :
    (Reader.over w stream).readU8 = .ok (octet, Reader.over (w.writeU8 octet) stream) := by
  have hget : (Reader.over w stream).bytes[(Reader.over w stream).place]? = some octet := by
    obtain ⟨rest, rfl⟩ := h
    show (w.out ++ [octet] ++ rest)[w.out.length]? = some octet
    simp
  unfold Reader.readU8
  rw [hget]
  exact congrArg (fun r => Except.ok (octet, r)) (over_extend w [octet] stream)

end Writer
end ZeroDds.Wire
