import Mathlib.Data.List.Basic

/-!
# Streams of self-delimiting messages

Messages are sent one after the other as `rs.flatMap encode`.  The code is
*self-delimiting* if a stream that begins with a message does not begin with a
different one as well.  A code whose messages give their length in a header of fixed
size is of this kind.
-/

namespace MatrixBin
namespace Library

universe u v

section SelfDelimiting

variable {ρ : Type u} {β : Type v} {encode : ρ → List β}

structure SelfDelimiting (encode : ρ → List β) : Prop where
  ne_nil : ∀ r, encode r ≠ []
  eq_of_append : ∀ {r r' : ρ} {x y : List β},
    encode r ++ x = encode r' ++ y → encode r = encode r'

/-- A header of `k` symbols that determines the length of the message. -/
theorem SelfDelimiting.of_header
    {k : Nat}
    (size : List β → Nat)
    (hk : 0 < k)
    (hheader : ∀ r, k ≤ (encode r).length)
    (hsize : ∀ r, (encode r).length = size ((encode r).take k)) :
    SelfDelimiting encode where
  ne_nil := by
    intro r hnil
    have := hheader r
    rw [hnil, List.length_nil] at this
    omega
  eq_of_append := by
    intro r r' x y h
    have htake := congrArg (List.take k) h
    rw [List.take_append_of_le_length (hheader r),
      List.take_append_of_le_length (hheader r')] at htake
    have hlen : (encode r).length = (encode r').length := by
      rw [hsize r, hsize r', htake]
    exact (List.append_inj h hlen).1

/-- A stream that begins with a message consists of that message and a stream. -/
theorem SelfDelimiting.flatMap_eq_append
    (hencode : SelfDelimiting encode)
    {r : ρ}
    {x : List β}
    {rs : List ρ}
    (h : encode r ++ x = rs.flatMap encode) :
    ∃ r' rest, rs = r' :: rest ∧ encode r' = encode r ∧ x = rest.flatMap encode := by
  cases rs with
  | nil => exact absurd (List.append_eq_nil_iff.mp h).1 (hencode.ne_nil r)
  | cons r' rest =>
      rw [List.flatMap_cons] at h
      have heq := hencode.eq_of_append h
      rw [heq] at h
      exact ⟨r', rest, rfl, heq.symm, List.append_cancel_left h⟩

theorem SelfDelimiting.flatMap_eq_nil
    (hencode : SelfDelimiting encode)
    {rs : List ρ}
    (h : rs.flatMap encode = []) :
    rs = [] := by
  cases rs with
  | nil => rfl
  | cons r rest => exact absurd (List.append_eq_nil_iff.mp h).1 (hencode.ne_nil r)

end SelfDelimiting

end Library
end MatrixBin
