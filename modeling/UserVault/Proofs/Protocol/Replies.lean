import UserVault.Proofs.Protocol.Reply

/-!
# Replies one after the other

A client takes replies off its source, each by the lengths that stand in it, as long as there are
whole ones.  Where whole replies come and then a part of one, it gets the whole ones and nothing
of the part.
-/

namespace UserVault.Protocol

open Link

namespace Reply

theorem shrinks_readParts (header : ReplyHeader) (shape : Shape) :
    (readParts header shape).Shrinks := by
  cases shape with
  | bare => exact Reading.shrinks_pure _
  | named => exact Reading.shrinks_bind shrinks_readName fun _ => Reading.shrinks_pure _
  | stream =>
    exact Reading.shrinks_bind shrinks_readName fun _ =>
      Reading.shrinks_bind (Reading.shrinks_number 4) fun length =>
        Reading.shrinks_bind (Reading.shrinks_exactly length) fun _ => Reading.shrinks_pure _

/-- A reply that was read is gone from the source. -/
theorem consumes_read : Reply.read.Consumes := by
  refine Reading.consumes_bind (Reading.consumes_exactly (by decide)) fun bytes => ?_
  dsimp only
  split
  · exact fun _ => Nat.le_refl _
  · exact shrinks_readParts _ _

/-- The replies that a client takes off a source before it finds no whole one. -/
def readAll (s : Source) : List Reply :=
  match _h : Reply.read s with
  | (.error _, _) => []
  | (.ok r, rest) => r :: readAll rest
termination_by s.load
decreasing_by exact consumes_read _ _ _ ‹_›

/-- Less than a reply: there are bytes that would make it a whole one. -/
def Partial (bytes : Bytes) : Prop :=
  ∃ (r : Reply) (missing : Bytes), r.Proper ∧ missing ≠ [] ∧ bytes ++ missing = r.encode

theorem partial_nil : Partial [] := by
  refine ⟨bare .noFiles, (bare .noFiles).encode, proper_bare rfl, ?_, List.nil_append _⟩
  decide

theorem readAll_of_front {replies : List Reply} (hproper : ∀ r ∈ replies, r.Proper) {tail : Bytes}
    (htail : Partial tail) {s : Source} (hfront : s.front = replies.flatMap encode ++ tail) :
    readAll s = replies := by
  induction replies generalizing s with
  | nil =>
    obtain ⟨r, missing, hr, hne, hmissing⟩ := htail
    obtain ⟨fault, rest, hread⟩ := starves_read hr s missing (by rw [hfront]; exact hmissing) hne
    rw [readAll]
    split <;> simp_all
  | cons r replies ih =>
    rw [List.flatMap_cons, List.append_assoc] at hfront
    obtain ⟨rest, hread, hrest, -⟩ := reads_read (hproper r List.mem_cons_self) s _ hfront
    have hlater := ih (fun r hr => hproper r (List.mem_cons_of_mem _ hr)) hrest
    rw [readAll]
    split <;> simp_all

end Reply

end UserVault.Protocol
