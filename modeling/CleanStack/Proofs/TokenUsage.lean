import CleanStack.Proofs.TokenBearer

/-!
# A usage is recorded once in a while

The statement that records a usage is conditional on the column it writes: the
last one has to be older than the bucket. Its floor is read off the clock before
the time it writes, so what it writes is a bucket's length after what was there,
on whichever process's clock. The row keeps the last time that was announced.
-/

namespace CleanStack.ApiToken

open CleanStack.Lib CleanStack.Kit

variable {hmacToken : String → JsString → String}

variable {u : BearerState} {es : List BearerEvent}

end CleanStack.ApiToken
