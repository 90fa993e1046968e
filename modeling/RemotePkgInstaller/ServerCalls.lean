import RemotePkgInstaller.HttpTransfer
import RemotePkgInstaller.Programs

/-! What the handlers of the server call outside of `server.c` and `pkg.c`: the functions of
`http.c`, the file system and the console's services. -/
namespace RemotePkgInstaller
namespace ServerCalls

open HttpState HttpTransfer Programs Responses Util

/-- A print into the reference json, with its values. -/
inductive JsonPrint
  | head (originalFileSize : ℕ) (packageDigest : Bytes) (numberOfSplitFiles : ℕ)
  | piece (url : Bytes) (fileOffset fileSize : ℕ) (hashValue : Bytes)
  | comma
  | tail
  deriving DecidableEq

def JsonPrint.text : JsonPrint → Bytes
  | head originalFileSize packageDigest numberOfSplitFiles =>
    bytes "\x7b\"originalFileSize\":"++Decimal.text originalFileSize++
      bytes ",\"packageDigest\":\""++packageDigest++
      bytes "\",\"numberOfSplitFiles\":"++Decimal.text numberOfSplitFiles++bytes ",\"pieces\":["
  | piece url fileOffset fileSize hashValue =>
    bytes "\x7b\"url\":\""++url++bytes "\",\"fileOffset\":"++Decimal.text fileOffset++
      bytes ",\"fileSize\":"++Decimal.text fileSize++bytes ",\"hashValue\":\""++hashValue++
      bytes "\"\x7d"
  | comma => bytes ","
  | tail => bytes "]\x7d"

/-- `OrbisBgftDownloadParam`, as far as its fields differ from task to task. -/
structure DownloadParam where
  userId : ℤ
  id : Bytes
  contentUrl : Bytes
  contentName : Bytes
  iconPath : Bytes
  packageType : Bytes
  packageSubType : Bytes
  packageSize : UInt64
  deriving DecidableEq

inductive ServerCall
  | httpGetSslVerify
  | httpSetSslVerify (mode : SslVerifyMode)
  | httpLoadCaBundle (path : Bytes)
  | httpSaveConfig (path : Bytes)
  | httpGetLastError
  | httpGetCaBundlePath
  | httpHasCaBundle
  | httpDownloadFile (url : Bytes) (size : Option UInt64) (offset : UInt64)
      (sslVerify : Option SslVerifyMode)
  | httpGetFileSize (url : Bytes) (sslVerify : Option SslVerifyMode)
  | getLanguageId
  | unlink (path : Bytes)
  | fopen (path : Bytes)
  | fprintf (path : Bytes) (print : JsonPrint)
  | fclose (path : Bytes)
  | writeFileTrunc (path data : Bytes)
  | readFile (path : Bytes)
  | stat (path : Bytes)
  | openFile (path : Bytes)
  | fstat (path : Bytes)
  | getForegroundUser
  | downloadRegisterTask (param : DownloadParam)
  | debugDownloadRegisterPkg (param : DownloadParam)
  deriving DecidableEq

/-- What the registration of a task returns and stores. -/
structure Registered where
  ret : ℤ
  taskId : ℤ
  deriving DecidableEq

/-- What a call answers.  Of `fopen` it is the error number if there is no file, of a print
the number of bytes that get into the file, and of `stat` whether the file is a regular one. -/
@[reducible] def Reply : ServerCall → Type
  | .httpGetSslVerify => SslVerifyMode
  | .httpSetSslVerify _ => Unit
  | .httpLoadCaBundle _ => Bool
  | .httpSaveConfig _ => Bool
  | .httpGetLastError => Bytes
  | .httpGetCaBundlePath => Bytes
  | .httpHasCaBundle => Bool
  | .httpDownloadFile _ _ _ _ => Option Downloaded
  | .httpGetFileSize _ _ => Option UInt64
  | .getLanguageId => Option ℤ
  | .unlink _ => Unit
  | .fopen _ => Except ℤ Unit
  | .fprintf _ _ => ℕ
  | .fclose _ => Unit
  | .writeFileTrunc _ _ => WriteCalls
  | .readFile _ => Option Bytes
  | .stat _ => Option Bool
  | .openFile _ => ℤ
  | .fstat _ => Option ℕ
  | .getForegroundUser => Except ℤ ℤ
  | .downloadRegisterTask _ => Registered
  | .debugDownloadRegisterPkg _ => Registered

abbrev ServerProgram := Program ServerCall Reply

abbrev ServerEvent := Event Reply

abbrev ask {ε : Type} (c : ServerCall) : ServerProgram ε (Reply c) := Program.perform c

end ServerCalls
end RemotePkgInstaller
