import Mathlib.Init

/-! The error class every service declares, with the constructors the services use. -/

namespace IntelliStore

structure AppError where
  statusCode : Nat
  code : String
  message : String
  deriving DecidableEq

namespace AppError

def badRequest (message : String) : AppError := ⟨400, "BAD_REQUEST", message⟩

def unauthorized (message : String) : AppError := ⟨401, "UNAUTHORIZED", message⟩

def conflict (message : String) : AppError := ⟨409, "CONFLICT", message⟩

def notFound (message : String) : AppError := ⟨404, "NOT_FOUND", message⟩

def badGateway (message : String) : AppError := ⟨502, "BAD_GATEWAY", message⟩

def integrityFailure (message : String) : AppError := ⟨500, "CHECKSUM_MISMATCH", message⟩

/-- What the error handler of `createApp` answers to any other error. -/
def internal : AppError := ⟨500, "INTERNAL_ERROR", "Internal server error"⟩

end AppError
end IntelliStore
