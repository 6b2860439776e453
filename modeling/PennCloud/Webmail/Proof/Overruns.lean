import PennCloud.Webmail.Worker
import Mathlib.Data.List.Basic

/-!
# What a buffer ends with

A call stops at the first line end that it finds among the bytes it stores and, behind the end of the stream, the bytes that
are left of earlier lines. If there is none it leaves the buffer.
-/

namespace PennCloud.Webmail

variable {stream : Stream} {pos n k room : Nat} {buf : Buffer}

/-- What stands at each place once it has been read to. -/
def Buffer.view (buf : Buffer) (stream : Stream) (pos : Nat) : Str :=
  buf.bytes.mapIdx fun i c => (stream.byte (pos + i)).getD c

theorem Buffer.length_view (buf : Buffer) (stream : Stream) (pos : Nat) : (buf.view stream pos).length = bufferSize :=
  List.length_mapIdx.trans buf.size

/-- The buffer after some rounds. -/
def Buffer.after (buf : Buffer) (stream : Stream) (pos n : Nat) : Buffer where
  bytes := (buf.view stream pos).take n ++ buf.bytes.drop n
  size := by
    have hview := buf.length_view stream pos
    have hsize := buf.size
    simp only [List.length_append, List.length_take, List.length_drop]
    omega

theorem Buffer.after_zero (buf : Buffer) (stream : Stream) (pos : Nat) : buf.after stream pos 0 = buf := rfl

theorem Buffer.receive_after (buf : Buffer) (stream : Stream) (pos : Nat) (hn : n < bufferSize) :
    (buf.after stream pos n).receive n (stream.byte (pos + n)) = buf.after stream pos (n + 1) := by
  have hview : n < (buf.view stream pos).length := (buf.length_view stream pos).symm ▸ hn
  have hbytes : n < buf.bytes.length := buf.size.symm ▸ hn
  have htake : ((buf.view stream pos).take n).length = n := List.length_take_of_le (Nat.le_of_lt hview)
  have hbyte : (buf.view stream pos)[n] = (stream.byte (pos + n)).getD buf.bytes[n] := List.getElem_mapIdx ..
  have hnext : (buf.after stream pos (n + 1)).bytes =
      (buf.view stream pos).take n ++ (buf.view stream pos)[n] :: buf.bytes.drop (n + 1) := by
    change (buf.view stream pos).take (n + 1) ++ buf.bytes.drop (n + 1) = _
    rw [← List.take_append_getElem hview, List.append_assoc]
    rfl
  apply Buffer.ext
  rw [hnext, hbyte]
  cases stream.byte (pos + n) with
  | none =>
      change (buf.view stream pos).take n ++ buf.bytes.drop n = _
      rw [List.drop_eq_getElem_cons hbytes]
      rfl
  | some c =>
      change ((buf.view stream pos).take n ++ buf.bytes.drop n).set n c = _
      rw [List.set_append_right n c (by omega), htake, Nat.sub_self, List.drop_eq_getElem_cons hbytes]
      rfl

theorem endsAt_after (hn : n ≤ bufferSize) : EndsAt (buf.after stream pos n).bytes n ↔ EndsAt (buf.view stream pos) n := by
  have hview := buf.length_view stream pos
  have hbyte {i : Nat} (hi : i < n) : (buf.after stream pos n).bytes[i]? = (buf.view stream pos)[i]? := by
    change ((buf.view stream pos).take n ++ buf.bytes.drop n)[i]? = _
    rw [List.getElem?_append_left (by rw [List.length_take]; omega), List.getElem?_take_of_lt hi]
  unfold EndsAt
  apply and_congr_right
  intro htwo
  rw [hbyte (by omega), hbyte (by omega)]

theorem readFrom_ends (hends : EndsAt buf.bytes n) : readFrom stream pos room buf n = .ok (buf, n) := by
  cases room with
  | zero => rw [readFrom, if_pos hends]
  | succ room => rw [readFrom, if_pos hends]

theorem readFrom_full (hgo : ¬ EndsAt buf.bytes n) : readFrom stream pos 0 buf n = .error .overrun := by
  rw [readFrom, if_neg hgo]

theorem readFrom_succ (hgo : ¬ EndsAt (buf.after stream pos n).bytes n) (hn : n < bufferSize) :
    readFrom stream pos (room + 1) (buf.after stream pos n) n = readFrom stream pos room (buf.after stream pos (n + 1)) (n + 1) := by
  rw [readFrom, if_neg hgo, buf.receive_after stream pos hn]

/-- The loop stops within the buffer iff there is a line end. -/
theorem readFrom_ok_iff (hroom : n + room = bufferSize) :
    (∃ result, readFrom stream pos room (buf.after stream pos n) n = .ok result) ↔
      ∃ k, n ≤ k ∧ k ≤ bufferSize ∧ EndsAt (buf.view stream pos) k := by
  induction room generalizing n with
  | zero =>
      by_cases hends : EndsAt (buf.view stream pos) n
      · rw [readFrom_ends ((endsAt_after (by omega)).mpr hends)]
        exact ⟨fun _ => ⟨n, le_rfl, by omega, hends⟩, fun _ => ⟨_, rfl⟩⟩
      · rw [readFrom_full (mt (endsAt_after (by omega)).mp hends)]
        constructor
        · rintro ⟨_, hresult⟩
          cases hresult
        · rintro ⟨k, hk, hsize, hk'⟩
          obtain rfl : n = k := by omega
          exact absurd hk' hends
  | succ room ih =>
      by_cases hends : EndsAt (buf.view stream pos) n
      · rw [readFrom_ends ((endsAt_after (by omega)).mpr hends)]
        exact ⟨fun _ => ⟨n, le_rfl, by omega, hends⟩, fun _ => ⟨_, rfl⟩⟩
      · rw [readFrom_succ (mt (endsAt_after (by omega)).mp hends) (by omega), ih (by omega)]
        constructor
        · rintro ⟨k, hk, hsize, hk'⟩
          exact ⟨k, by omega, hsize, hk'⟩
        · rintro ⟨k, hk, hsize, hk'⟩
          refine ⟨k, Nat.lt_of_le_of_ne hk ?_, hsize, hk'⟩
          rintro rfl
          exact hends hk'

theorem readFrom_eq (hroom : n + room = bufferSize) (hk : n ≤ k) (hsize : k ≤ bufferSize) (hends : EndsAt (buf.view stream pos) k)
    (hfirst : ∀ j < k, ¬ EndsAt (buf.view stream pos) j) :
    readFrom stream pos room (buf.after stream pos n) n = .ok (buf.after stream pos k, k) := by
  obtain ⟨rounds, rfl⟩ := Nat.exists_eq_add_of_le hk
  induction rounds generalizing n room with
  | zero => exact readFrom_ends ((endsAt_after (by omega)).mpr hends)
  | succ rounds ih =>
      obtain ⟨room, rfl⟩ : ∃ m, room = m + 1 := ⟨room - 1, by omega⟩
      have hgo : ¬ EndsAt (buf.after stream pos n).bytes n := mt (endsAt_after (by omega)).mp (hfirst n (by omega))
      have hback : n + 1 + rounds = n + (rounds + 1) := by omega
      rw [readFrom_succ hgo (by omega), ih (by omega) (by omega) (by omega) (hback ▸ hends) (hback ▸ hfirst), hback]

/-! ### The calls of a session -/

namespace Worker

variable {w : Worker}

/-- A line end stands in what the next call finds in its buffer: what the client sends next and, behind the end of what it sends,
what is left of earlier lines. -/
def LineEnds (stream : Stream) (w : Worker) : Prop := ∃ k ≤ bufferSize, EndsAt (w.filled.view stream w.pos) k

theorem returns_iff_readFrom : w.Returns stream ↔ ∃ result, readFrom stream w.pos bufferSize w.filled 0 = .ok result := by
  unfold Returns filled
  cases w.mail with
  | none => exact Iff.rfl
  | some mail =>
      constructor
      · rintro ⟨result, hresult⟩
        obtain ⟨filled, hfilled, _⟩ := Run.bind_eq_ok.mp hresult
        exact ⟨filled, hfilled⟩
      · rintro ⟨⟨dataBuf, rcvd⟩, hfilled⟩
        exact ⟨_, Run.bind_eq_ok.mpr ⟨_, hfilled, rfl⟩⟩

theorem returns_iff : w.Returns stream ↔ w.LineEnds stream := by
  rw [returns_iff_readFrom, ← w.filled.after_zero stream w.pos, readFrom_ok_iff (Nat.zero_add bufferSize)]
  exact exists_congr fun k => and_iff_right (Nat.zero_le k)

end Worker

end PennCloud.Webmail
