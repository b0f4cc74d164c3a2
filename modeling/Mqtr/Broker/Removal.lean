import Mqtr.Broker.Subscriptions
import Mqtr.Trie.Lookup

/-! Taking the subscriptions of a session out of the trie. `do_unsubscribe` aborts on a path without a value
that is the beginning of another one; while the trie and the sessions agree, it is not called on such a
path. -/
namespace Mqtr
open Outcome Std Transition

namespace Session
variable {s : Session}

end Session

namespace Subscribers
variable {s : Subscribers} {events : List SubscriberEvent}

instance (s : Session) (id : Option UInt32) (filter : SubscribeFilter) :
    Decidable (s.Repeats id filter) :=
  inferInstanceAs (Decidable (∀ old ∈ s.subscriptions[filter.topicFilter]?,
    filter.opt.unwrap = .ok old.options ∧ old.subscriptionId = id))

instance (s : Subscribers) : DecidablePred s.Consistent
  | .subscribe clientId sub => inferInstanceAs (Decidable (
      (∀ filter ∈ sub.filters, filter.opt.val &&& SubscriptionOpt.retainHandling = 0) ∧
      (∀ a ∈ sub.filters, ∀ b ∈ sub.filters, a.topicFilter = b.topicFilter →
        a.opt.unwrap = b.opt.unwrap) ∧
      ∀ member ∈ s.live[clientId]?, ∀ filter ∈ sub.filters,
        member.session.Repeats sub.subscriptionId filter))
  | .remove _ => inferInstanceAs (Decidable True)

theorem run_inv {s₀ : Subscribers} (hfresh : s₀.Fresh) (hcons : Along step Consistent s₀ events)
    (hrun : run step s₀ events = some s) : s.Inv events :=
  run_history (P := fun hist s => s.Inv hist) (fun _ _ _ _ h hc hs => step_inv h hc hs) []
    hfresh.inv hcons hrun

end Subscribers
end Mqtr
