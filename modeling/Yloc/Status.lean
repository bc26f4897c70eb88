/-!
`status.h`: the codes that functions of the library return.
-/

namespace Yloc

/-- `yloc_status_t`. -/
inductive YlocStatus where
  | success
  | invalidArgs
  | notSupported
  | outOfResources
  | internalException
  | inputOutOfBounds
  | initError
  | notYetImplemented
  | notFound
  | insufficientSize
  | unexpectedSize
  | noData
  | unknownError
  deriving DecidableEq, Repr

end Yloc
