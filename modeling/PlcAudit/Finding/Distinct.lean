import PlcAudit.Finding.Signature

/-!
# Distinct findings

An engine may report the same finding several times.  Of findings with one signature the first is
kept, and the ones that are kept stay in their order.

* `Finding.distinct`: the first of each signature.
-/

namespace PlcAudit.Finding

/-- The findings whose signature is neither among the `seen` ones nor that of an earlier finding. -/
def distinctFrom (seen : List String) : List Finding → List Finding
  | [] => []
  | f :: fs =>
    if f.signature ∈ seen then distinctFrom seen fs
    else f :: distinctFrom (f.signature :: seen) fs

/-- The first finding of each signature, in the order of the list. -/
def distinct (fs : List Finding) : List Finding := distinctFrom [] fs

@[simp] theorem distinct_nil : distinct [] = [] := rfl

/-- Only findings of the list are kept, in its order. -/
theorem distinctFrom_sublist (seen : List String) (fs : List Finding) :
    (distinctFrom seen fs).Sublist fs := by
  induction fs generalizing seen with
  | nil => exact .slnil
  | cons f fs ih =>
    unfold distinctFrom
    split
    · exact (ih seen).cons f
    · exact (ih _).cons_cons f

end PlcAudit.Finding
