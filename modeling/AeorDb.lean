import AeorDb.Auth.Navigation
import AeorDb.Auth.OneTime
import AeorDb.Auth.OwnDeny
import AeorDb.Auth.RateLimiter
import AeorDb.BTree.MapSpec
import AeorDb.Dir.CopyLoops
import AeorDb.Dir.Streaming
import AeorDb.Gc.Interleavings
import AeorDb.Header.OpenTransaction
import AeorDb.Index.Counting
import AeorDb.Merge.Convergence
import AeorDb.Query.Backwards
import AeorDb.Query.IndexNames
import AeorDb.Query.MergePatch
import AeorDb.Query.SetSemantics
import AeorDb.Query.SignedOrder
import AeorDb.Query.Substring
import AeorDb.Store.Cache
import AeorDb.Store.Keys
import AeorDb.Store.Symlinks
import AeorDb.Sync.Commit
import AeorDb.Sync.Disclosure
import AeorDb.Sync.Resolve
import AeorDb.Tasks.Finished
import AeorDb.Tasks.Listed
import AeorDb.Verify.Trust
import AeorDb.Version.FileRestore
import AeorDb.Wal.EntryReads
import AeorDb.Wal.Migration
import AeorDb.Wal.OfflineExpansion
import AeorDb.Wal.Sessions
import AeorDb.Wal.Tombstones
