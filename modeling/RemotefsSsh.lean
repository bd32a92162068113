import RemotefsSsh.AlgoPrefs
import RemotefsSsh.Asking
import RemotefsSsh.Authenticate
import RemotefsSsh.Chunks
import RemotefsSsh.Client
import RemotefsSsh.Connecting
import RemotefsSsh.CopyMove
import RemotefsSsh.ExecDir
import RemotefsSsh.ExistsStat
import RemotefsSsh.ExitCode
import RemotefsSsh.FileStats
import RemotefsSsh.Hosts
import RemotefsSsh.ListAgree
import RemotefsSsh.ListDir
import RemotefsSsh.ListStat
import RemotefsSsh.LsExact
import RemotefsSsh.LsTime
import RemotefsSsh.LsTotal
import RemotefsSsh.Missing.Sftp
import RemotefsSsh.ProtocolRuns
import RemotefsSsh.Quoting
import RemotefsSsh.Replies
import RemotefsSsh.Setstat
import RemotefsSsh.SetstatAgree
import RemotefsSsh.SetstatTimes
import RemotefsSsh.StatAgree
import RemotefsSsh.StorageRuns
import RemotefsSsh.ChangesAgree
import RemotefsSsh.Symlink
import RemotefsSsh.Transfer
import RemotefsSsh.WorkingDir
import RemotefsSsh.Works
import RemotefsSsh.Breaks
import RemotefsSsh.Interleaved
