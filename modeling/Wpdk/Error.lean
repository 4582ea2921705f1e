import Mathlib.Data.Int.Notation
import Mathlib.Data.Nat.Notation

/-!
# Error numbers

`wpdk_convert_to_posix` turns a Windows or Winsock error code into an `errno` value.  The
codes it names are the constructors of `WinError`, and every other code is `unlisted`: the
function sends it to its default.  An `errno` value is a constructor of `Errno`, with the
number that the C runtime or `inc/errno.h` gives it.

What the callers rely on is `exists_code_of_ne`: every code but `ERROR_SUCCESS` converts to an
`errno` value.  So the result is zero for `ERROR_SUCCESS` and for nothing else
(`convertToPosix_eq_zero_iff`), and a failed call is never reported as a success by the
conversion itself.
-/

namespace Wpdk

/-- The `errno` values that the modelled functions report. -/
inductive Errno where
  | eperm | enoent | esrch | eintr | eio | enxio | enoexec | ebadf | echild | eagain | enomem
  | eacces | efault | ebusy | eexist | exdev | enodev | einval | enfile | emfile | enospc
  | epipe | erange | enametoolong | enolck | enosys | enotempty | eaddrinuse | eaddrnotavail
  | eafnosupport | ealready | ecanceled | econnaborted | econnrefused | econnreset
  | edestaddrreq | ehostunreach | einprogress | eisconn | eloop | emsgsize | enetdown
  | enetreset | enetunreach | enobufs | enodata | enoprotoopt | enotconn | enotsock | enotsup
  | eownerdead | eprotonosupport | eprototype | etimedout | ewouldblock | eshutdown | ehostdown
  | eusers | edquot | estale | eremote | eproclim | etoomanyrefs
  deriving DecidableEq, Repr

/-- The number behind an `errno` name. -/
def Errno.code : Errno → ℕ
  | .eperm => 1
  | .enoent => 2
  | .esrch => 3
  | .eintr => 4
  | .eio => 5
  | .enxio => 6
  | .enoexec => 8
  | .ebadf => 9
  | .echild => 10
  | .eagain => 11
  | .enomem => 12
  | .eacces => 13
  | .efault => 14
  | .ebusy => 16
  | .eexist => 17
  | .exdev => 18
  | .enodev => 19
  | .einval => 22
  | .enfile => 23
  | .emfile => 24
  | .enospc => 28
  | .epipe => 32
  | .erange => 34
  | .enametoolong => 38
  | .enolck => 39
  | .enosys => 40
  | .enotempty => 41
  | .eaddrinuse => 100
  | .eaddrnotavail => 101
  | .eafnosupport => 102
  | .ealready => 103
  | .ecanceled => 105
  | .econnaborted => 106
  | .econnrefused => 107
  | .econnreset => 108
  | .edestaddrreq => 109
  | .ehostunreach => 110
  | .einprogress => 112
  | .eisconn => 113
  | .eloop => 114
  | .emsgsize => 115
  | .enetdown => 116
  | .enetreset => 117
  | .enetunreach => 118
  | .enobufs => 119
  | .enodata => 120
  | .enoprotoopt => 123
  | .enotconn => 126
  | .enotsock => 128
  | .enotsup => 129
  | .eownerdead => 133
  | .eprotonosupport => 135
  | .eprototype => 136
  | .etimedout => 138
  | .ewouldblock => 140
  | .eshutdown => 200
  | .ehostdown => 202
  | .eusers => 203
  | .edquot => 204
  | .estale => 205
  | .eremote => 206
  | .eproclim => 207
  | .etoomanyrefs => 10059

/-- The Windows and Winsock error codes that `wpdk_convert_to_posix` names. -/
inductive WinError where
  | errorSuccess | errorAccessDenied | errorAdapHdwErr | errorAlerted | errorAlreadyExists
  | errorArenaTrashed | errorBadArguments | errorBadCommand | errorBadDevice
  | errorBadDevicePath | errorBadDriverLevel | errorBadEnvironment | errorBadExeFormat
  | errorBadFormat | errorBadLength | errorBadNetpath | errorBadNetName | errorBadNetResp
  | errorBadPathname | errorBadUnit | errorBrokenPipe | errorBufferOverflow | errorBusReset
  | errorBusy | errorCallNotImplemented | errorCanNotComplete | errorCancelled
  | errorCannotMake | errorCantTerminateSelf | errorCantWait | errorCommitmentLimit
  | errorConnectionAborted | errorConnectionActive | errorConnectionRefused | errorCrc
  | errorCurrentDirectory | errorDataChecksumError | errorDeletePending | errorDevNotExist
  | errorDeviceAlreadyAttached | errorDeviceNoResources | errorDeviceNotConnected
  | errorDeviceUnreachable | errorDirNotEmpty | errorDirNotRoot | errorDirectAccessHandle
  | errorDirectoryNotSupported | errorDiskFull | errorDupName | errorElevationRequired
  | errorErrorsEncountered | errorExclSemAlreadyOwned | errorFileExists
  | errorFileLevelTrimNotSupported | errorFileNotFound | errorFilenameExcedRange
  | errorGenFailure | errorGracefulDisconnect | errorIncorrectSize | errorInvalidAccess
  | errorInvalidBlock | errorInvalidFunction | errorInvalidHandle | errorInvalidLockRange
  | errorInvalidName | errorInvalidUserBuffer | errorHandleDiskFull | errorHandleEof
  | errorHostDown | errorHostUnreachable | errorInsufficientBuffer | errorInternalError
  | errorInvalidAddress | errorInvalidData | errorInvalidDrive | errorInvalidExceptionHandler
  | errorInvalidFieldInParameterList | errorInvalidFlags | errorInvalidNetname
  | errorInvalidParameter | errorIoDevice | errorIoIncomplete | errorIoPending
  | errorLockFailed | errorLockViolation | errorLostWritebehindData | errorMaxThrdsReached
  | errorMemoryHardware | errorMoreData | errorMultipleFaultViolation | errorNegativeSeek
  | errorNetnameDeleted | errorNetworkAccessDenied | errorNetworkUnreachable | errorNetworkBusy
  | errorNoMoreItems | errorNoaccess | errorNointerface | errorNotCapable
  | errorNotEnoughMemory | errorNotEnoughQuota | errorNotFound | errorNotLocked | errorNotReady
  | errorNotSameDevice | errorNotSupported | errorNoMoreFiles | errorNoMoreUserHandles
  | errorNoNetwork | errorNoProcSlots | errorNoSystemResources | errorNonpagedSystemResources
  | errorNotDosDisk | errorObjectNameExists | errorOffsetAlignmentViolation
  | errorOperationInProgress | errorOutOfStructures | errorPagedSystemResources
  | errorPossibleDeadlock | errorPagefileQuota | errorOpenFailed | errorOperationAborted
  | errorOutofmemory | errorOutOfPaper | errorPagefileQuotaExceeded | errorPathNotFound
  | errorPipeNotConnected | errorProtocolUnreachable | errorPortUnreachable | errorReadFault
  | errorReceiveExpedited | errorReceivePartial | errorReceivePartialExpedited
  | errorRemNotList | errorReparse | errorReqNotAccep | errorRequestAborted | errorRetry
  | errorSectorNotFound | errorSeek | errorSeekOnDevice | errorSemIsSet | errorSemNotFound
  | errorSemOwnerDied | errorSemTimeout | errorSemUserLimit | errorSharingBufferExceeded
  | errorSharingViolation | errorTimeout | errorTooManyDescriptors | errorTooManyNames
  | errorTooManyOpenFiles | errorTooManyPosts | errorTooManySemRequests
  | errorTooManySemaphores | errorTooManyTcbs | errorTooManyThreads | errorUnexpNetErr
  | errorUserMappedFile | errorWaitNoChildren | errorWriteFault | errorWriteProtect
  | errorWrongDisk | errorWorkingSetQuota | waitTimeout | wsaeintr | wsaebadf | wsaeacces
  | wsaefault | wsaeinval | wsaemfile | wsaewouldblock | wsaeinprogress | wsaealready
  | wsaenotsock | wsaedestaddrreq | wsaemsgsize | wsaeprototype | wsaenoprotoopt
  | wsaeprotonosupport | wsaesocktnosupport | wsaeopnotsupp | wsaepfnosupport | wsaeafnosupport
  | wsaeaddrinuse | wsaeaddrnotavail | wsaenetdown | wsaenetunreach | wsaenetreset
  | wsaeconnaborted | wsaeconnreset | wsaenobufs | wsaeisconn | wsaenotconn | wsaeshutdown
  | wsaetoomanyrefs | wsaetimedout | wsaeconnrefused | wsaeloop | wsaenametoolong
  | wsaehostdown | wsaehostunreach | wsaenotempty | wsaeproclim | wsaeusers | wsaedquot
  | wsaestale | wsaeremote | wsasysnotready | wsavernotsupported | wsanotinitialised
  | wsaediscon | wsaenomore | wsaecancelled | wsaeinvalidproctable | wsaeinvalidprovider
  | wsaeproviderfailedinit | wsasyscallfailure | wsaserviceNotFound | wsatypeNotFound
  | wsaENoMore | wsaECancelled | wsaerefused | wsahostNotFound | wsatryAgain | wsanoRecovery
  | wsanoData | wsaSecureHostNotFound | wsaIpsecNamePolicyError
  | unlisted
  deriving DecidableEq, Repr

/-- `wpdk_last_error` and `wpdk_posix_error` keep the error in `errno`, and return this. -/
def lastError : ℤ := -1

/-- `wpdk_convert_to_posix`.  A code that is not listed is a generic failure. -/
def convertToPosix : WinError → ℕ
  | .errorSuccess => 0
  | .errorAccessDenied => Errno.eacces.code
  | .errorAdapHdwErr => Errno.eio.code
  | .errorAlerted => Errno.eintr.code
  | .errorAlreadyExists => Errno.eexist.code
  | .errorArenaTrashed => Errno.efault.code
  | .errorBadArguments => Errno.einval.code
  | .errorBadCommand => Errno.eio.code
  | .errorBadDevice => Errno.enxio.code
  | .errorBadDevicePath => Errno.einval.code
  | .errorBadDriverLevel => Errno.enosys.code
  | .errorBadEnvironment => Errno.efault.code
  | .errorBadExeFormat => Errno.enoexec.code
  | .errorBadFormat => Errno.enoexec.code
  | .errorBadLength => Errno.eio.code
  | .errorBadNetpath => Errno.enoent.code
  | .errorBadNetName => Errno.enoent.code
  | .errorBadNetResp => Errno.enotsup.code
  | .errorBadPathname => Errno.enoent.code
  | .errorBadUnit => Errno.enodev.code
  | .errorBrokenPipe => Errno.epipe.code
  | .errorBufferOverflow => Errno.enametoolong.code
  | .errorBusReset => Errno.eio.code
  | .errorBusy => Errno.ebusy.code
  | .errorCallNotImplemented => Errno.enosys.code
  | .errorCanNotComplete => Errno.einval.code
  | .errorCancelled => Errno.ecanceled.code
  | .errorCannotMake => Errno.eperm.code
  | .errorCantTerminateSelf => Errno.eperm.code
  | .errorCantWait => Errno.ewouldblock.code
  | .errorCommitmentLimit => Errno.enomem.code
  | .errorConnectionAborted => Errno.econnaborted.code
  | .errorConnectionActive => Errno.eisconn.code
  | .errorConnectionRefused => Errno.econnrefused.code
  | .errorCrc => Errno.eio.code
  | .errorCurrentDirectory => Errno.eperm.code
  | .errorDataChecksumError => Errno.eio.code
  | .errorDeletePending => Errno.ebusy.code
  | .errorDevNotExist => Errno.enoent.code
  | .errorDeviceAlreadyAttached => Errno.ebusy.code
  | .errorDeviceNoResources => Errno.enomem.code
  | .errorDeviceNotConnected => Errno.enxio.code
  | .errorDeviceUnreachable => Errno.enxio.code
  | .errorDirNotEmpty => Errno.enotempty.code
  | .errorDirNotRoot => Errno.einval.code
  | .errorDirectAccessHandle => Errno.eio.code
  | .errorDirectoryNotSupported => Errno.eperm.code
  | .errorDiskFull => Errno.enospc.code
  | .errorDupName => Errno.eaddrinuse.code
  | .errorElevationRequired => Errno.eperm.code
  | .errorErrorsEncountered => Errno.einval.code
  | .errorExclSemAlreadyOwned => Errno.ebusy.code
  | .errorFileExists => Errno.eexist.code
  | .errorFileLevelTrimNotSupported => Errno.enosys.code
  | .errorFileNotFound => Errno.enoent.code
  | .errorFilenameExcedRange => Errno.enametoolong.code
  | .errorGenFailure => Errno.eio.code
  | .errorGracefulDisconnect => Errno.eshutdown.code
  | .errorIncorrectSize => Errno.einval.code
  | .errorInvalidAccess => Errno.eacces.code
  | .errorInvalidBlock => Errno.efault.code
  | .errorInvalidFunction => Errno.einval.code
  | .errorInvalidHandle => Errno.ebadf.code
  | .errorInvalidLockRange => Errno.einval.code
  | .errorInvalidName => Errno.enoent.code
  | .errorInvalidUserBuffer => Errno.einval.code
  | .errorHandleDiskFull => Errno.enospc.code
  | .errorHandleEof => Errno.enodata.code
  | .errorHostDown => Errno.ehostunreach.code
  | .errorHostUnreachable => Errno.ehostunreach.code
  | .errorInsufficientBuffer => Errno.einval.code
  | .errorInternalError => Errno.efault.code
  | .errorInvalidAddress => Errno.efault.code
  | .errorInvalidData => Errno.einval.code
  | .errorInvalidDrive => Errno.enodev.code
  | .errorInvalidExceptionHandler => Errno.efault.code
  | .errorInvalidFieldInParameterList => Errno.einval.code
  | .errorInvalidFlags => Errno.einval.code
  | .errorInvalidNetname => Errno.eaddrnotavail.code
  | .errorInvalidParameter => Errno.einval.code
  | .errorIoDevice => Errno.eio.code
  | .errorIoIncomplete => Errno.einprogress.code
  | .errorIoPending => Errno.einprogress.code
  | .errorLockFailed => Errno.ebusy.code
  | .errorLockViolation => Errno.eacces.code
  | .errorLostWritebehindData => Errno.eio.code
  | .errorMaxThrdsReached => Errno.enomem.code
  | .errorMemoryHardware => Errno.efault.code
  | .errorMoreData => Errno.emsgsize.code
  | .errorMultipleFaultViolation => Errno.efault.code
  | .errorNegativeSeek => Errno.einval.code
  | .errorNetnameDeleted => Errno.econnaborted.code
  | .errorNetworkAccessDenied => Errno.eacces.code
  | .errorNetworkUnreachable => Errno.enetunreach.code
  | .errorNetworkBusy => Errno.eagain.code
  | .errorNoMoreItems => Errno.enodata.code
  | .errorNoaccess => Errno.efault.code
  | .errorNointerface => Errno.enosys.code
  | .errorNotCapable => Errno.enosys.code
  | .errorNotEnoughMemory => Errno.enomem.code
  | .errorNotEnoughQuota => Errno.enomem.code
  | .errorNotFound => Errno.enoent.code
  | .errorNotLocked => Errno.einval.code
  | .errorNotReady => Errno.enxio.code
  | .errorNotSameDevice => Errno.exdev.code
  | .errorNotSupported => Errno.enotsup.code
  | .errorNoMoreFiles => Errno.enfile.code
  | .errorNoMoreUserHandles => Errno.enomem.code
  | .errorNoNetwork => Errno.enetdown.code
  | .errorNoProcSlots => Errno.enomem.code
  | .errorNoSystemResources => Errno.enomem.code
  | .errorNonpagedSystemResources => Errno.enomem.code
  | .errorNotDosDisk => Errno.enodev.code
  | .errorObjectNameExists => Errno.eexist.code
  | .errorOffsetAlignmentViolation => Errno.einval.code
  | .errorOperationInProgress => Errno.einprogress.code
  | .errorOutOfStructures => Errno.enomem.code
  | .errorPagedSystemResources => Errno.einval.code
  | .errorPossibleDeadlock => Errno.ewouldblock.code
  | .errorPagefileQuota => Errno.enomem.code
  | .errorOpenFailed => Errno.enoent.code
  | .errorOperationAborted => Errno.ecanceled.code
  | .errorOutofmemory => Errno.enomem.code
  | .errorOutOfPaper => Errno.eio.code
  | .errorPagefileQuotaExceeded => Errno.enomem.code
  | .errorPathNotFound => Errno.enoent.code
  | .errorPipeNotConnected => Errno.epipe.code
  | .errorProtocolUnreachable => Errno.enetunreach.code
  | .errorPortUnreachable => Errno.econnreset.code
  | .errorReadFault => Errno.eio.code
  | .errorReceiveExpedited => Errno.emsgsize.code
  | .errorReceivePartial => Errno.emsgsize.code
  | .errorReceivePartialExpedited => Errno.emsgsize.code
  | .errorRemNotList => Errno.enetunreach.code
  | .errorReparse => Errno.eagain.code
  | .errorReqNotAccep => Errno.eagain.code
  | .errorRequestAborted => Errno.ecanceled.code
  | .errorRetry => Errno.eagain.code
  | .errorSectorNotFound => Errno.einval.code
  | .errorSeek => Errno.einval.code
  | .errorSeekOnDevice => Errno.einval.code
  | .errorSemIsSet => Errno.ebusy.code
  | .errorSemNotFound => Errno.enoent.code
  | .errorSemOwnerDied => Errno.eownerdead.code
  | .errorSemTimeout => Errno.etimedout.code
  | .errorSemUserLimit => Errno.eagain.code
  | .errorSharingBufferExceeded => Errno.enolck.code
  | .errorSharingViolation => Errno.ebusy.code
  | .errorTimeout => Errno.etimedout.code
  | .errorTooManyDescriptors => Errno.enomem.code
  | .errorTooManyNames => Errno.enospc.code
  | .errorTooManyOpenFiles => Errno.emfile.code
  | .errorTooManyPosts => Errno.einval.code
  | .errorTooManySemRequests => Errno.ebusy.code
  | .errorTooManySemaphores => Errno.enomem.code
  | .errorTooManyTcbs => Errno.enomem.code
  | .errorTooManyThreads => Errno.enomem.code
  | .errorUnexpNetErr => Errno.eio.code
  | .errorUserMappedFile => Errno.einval.code
  | .errorWaitNoChildren => Errno.echild.code
  | .errorWriteFault => Errno.eio.code
  | .errorWriteProtect => Errno.eacces.code
  | .errorWrongDisk => Errno.eio.code
  | .errorWorkingSetQuota => Errno.enomem.code
  | .waitTimeout => Errno.etimedout.code
  | .wsaeintr => Errno.eintr.code
  | .wsaebadf => Errno.ebadf.code
  | .wsaeacces => Errno.eacces.code
  | .wsaefault => Errno.efault.code
  | .wsaeinval => Errno.einval.code
  | .wsaemfile => Errno.emfile.code
  | .wsaewouldblock => Errno.ewouldblock.code
  | .wsaeinprogress => Errno.einprogress.code
  | .wsaealready => Errno.ealready.code
  | .wsaenotsock => Errno.enotsock.code
  | .wsaedestaddrreq => Errno.edestaddrreq.code
  | .wsaemsgsize => Errno.emsgsize.code
  | .wsaeprototype => Errno.eprototype.code
  | .wsaenoprotoopt => Errno.enoprotoopt.code
  | .wsaeprotonosupport => Errno.eprotonosupport.code
  | .wsaesocktnosupport => Errno.eafnosupport.code
  | .wsaeopnotsupp => Errno.enotsup.code
  | .wsaepfnosupport => Errno.eprotonosupport.code
  | .wsaeafnosupport => Errno.eafnosupport.code
  | .wsaeaddrinuse => Errno.eaddrinuse.code
  | .wsaeaddrnotavail => Errno.eaddrnotavail.code
  | .wsaenetdown => Errno.enetdown.code
  | .wsaenetunreach => Errno.enetunreach.code
  | .wsaenetreset => Errno.enetreset.code
  | .wsaeconnaborted => Errno.econnaborted.code
  | .wsaeconnreset => Errno.econnreset.code
  | .wsaenobufs => Errno.enobufs.code
  | .wsaeisconn => Errno.eisconn.code
  | .wsaenotconn => Errno.enotconn.code
  | .wsaeshutdown => Errno.eshutdown.code
  | .wsaetoomanyrefs => Errno.etoomanyrefs.code
  | .wsaetimedout => Errno.etimedout.code
  | .wsaeconnrefused => Errno.econnrefused.code
  | .wsaeloop => Errno.eloop.code
  | .wsaenametoolong => Errno.enametoolong.code
  | .wsaehostdown => Errno.ehostdown.code
  | .wsaehostunreach => Errno.ehostunreach.code
  | .wsaenotempty => Errno.enotempty.code
  | .wsaeproclim => Errno.eproclim.code
  | .wsaeusers => Errno.eusers.code
  | .wsaedquot => Errno.edquot.code
  | .wsaestale => Errno.estale.code
  | .wsaeremote => Errno.eremote.code
  | .wsasysnotready => Errno.eagain.code
  | .wsavernotsupported => Errno.enosys.code
  | .wsanotinitialised => Errno.enosys.code
  | .wsaediscon => Errno.econnreset.code
  | .wsaenomore => Errno.enosys.code
  | .wsaecancelled => Errno.ecanceled.code
  | .wsaeinvalidproctable => Errno.einval.code
  | .wsaeinvalidprovider => Errno.einval.code
  | .wsaeproviderfailedinit => Errno.enosys.code
  | .wsasyscallfailure => Errno.enosys.code
  | .wsaserviceNotFound => Errno.enosys.code
  | .wsatypeNotFound => Errno.enosys.code
  | .wsaENoMore => Errno.einval.code
  | .wsaECancelled => Errno.ecanceled.code
  | .wsaerefused => Errno.einval.code
  | .wsahostNotFound => Errno.ehostdown.code
  | .wsatryAgain => Errno.eagain.code
  | .wsanoRecovery => Errno.enosys.code
  | .wsanoData => Errno.enosys.code
  | .wsaSecureHostNotFound => Errno.ehostdown.code
  | .wsaIpsecNamePolicyError => Errno.enosys.code
  | .unlisted => Errno.einval.code

/-- No `errno` name stands for zero. -/
theorem Errno.code_pos (e : Errno) : 0 < e.code := by
  cases e <;> decide

/-- Every code but success converts to an `errno` value. -/
theorem exists_code_of_ne {e : WinError} (he : e ≠ WinError.errorSuccess) :
    ∃ x : Errno, convertToPosix e = x.code := by
  cases e with
  | errorSuccess => exact absurd rfl he
  | _ =>
    dsimp only [convertToPosix]
    exact ⟨_, rfl⟩

theorem convertToPosix_pos {e : WinError} (he : e ≠ WinError.errorSuccess) :
    0 < convertToPosix e := by
  obtain ⟨x, hx⟩ := exists_code_of_ne he
  rw [hx]
  exact x.code_pos

/-- **Only success converts to zero.** -/
theorem convertToPosix_eq_zero_iff {e : WinError} :
    convertToPosix e = 0 ↔ e = WinError.errorSuccess := by
  constructor
  · intro hzero
    refine Decidable.byContradiction fun hne => ?_
    exact absurd hzero (Nat.ne_of_gt (convertToPosix_pos hne))
  · rintro rfl
    rfl

end Wpdk
