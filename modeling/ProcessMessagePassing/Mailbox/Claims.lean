import ProcessMessagePassing.Mailbox.Sections

/-! The claims on a mailbox. Only `claim_mailbox` and `unclaim_mailbox` move the count, and only
the last section of `mailbox_destroy` frees the object. -/
namespace ProcessMessagePassing

namespace Mailbox
variable {α μ : Type} [DecidableEq α] {a : α} {signalPending : Bool} {m m' : Mailbox α μ}
  {cs : CallState μ} {p : Progress μ}

/-- How a section changes the count of claims. -/
def claims : CallState μ → ℤ
  | .claim => 1
  | .unclaim => -1
  | _ => 0

/-- How often a section frees the mailbox. -/
def freeing : CallState μ → ℕ
  | .free => 1
  | _ => 0

theorem Locked.owner_eq (h : Locked a signalPending m cs m' p) : m'.owner = m.owner := by
  cases h with
  | unclaimNow => exact unclaim_owner m
  | _ => rfl

theorem Locked.dereferences_eq (h : Locked a signalPending m cs m' p) :
    m'.dereferences = m.dereferences + claims cs := by
  cases h with
  | claimNow => rfl
  | unclaimNow => exact unclaim_dereferences m
  | flushSleep h | flushNow h => rcases h with rfl | rfl <;> exact (Int.add_zero _).symm
  | unclaimedSleep h | unclaimedNow h => rcases h with rfl | rfl <;> exact (Int.add_zero _).symm
  | _ => exact (Int.add_zero _).symm

theorem Locked.frees_eq (h : Locked a signalPending m cs m' p) :
    m'.frees = m.frees + freeing cs := by
  cases h with
  | freeNow => rfl
  | unclaimNow => exact unclaim_frees m
  | flushSleep h | flushNow h => rcases h with rfl | rfl <;> rfl
  | unclaimedSleep h | unclaimedNow h => rcases h with rfl | rfl <;> rfl
  | _ => rfl

end Mailbox
end ProcessMessagePassing
