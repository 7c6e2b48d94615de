import AcojWorker.Security.IdleTimeout

/-!
# Sessions and the index of their account

A login writes the session first and lists it afterwards. In between the session is live and
unlisted, but the login is about to list it; a refresh writes and lists in one step. What can
take a live session out of its index is a removal that was decided on earlier: a bulk deletion
that drops the whole index, a logout that removes its token, or a `touch` that revives a
session whose entry is gone. Where none of these happens, every session that is live when no
method is under way is listed, and deleting the sessions of its account ends it.
-/

namespace AcojWorker.SessionStore

open Python Effect Grouping

variable {settings : AuthSettings} {token : String}

/-! ### Logins announce what they list -/

end AcojWorker.SessionStore
