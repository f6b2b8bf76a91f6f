/-!
# The mutexes of the single-threaded port

`bhyve/pthread.c`: a mutex is one word, and an assertion guards it on either side. The
assertions are recorded instead of stopped at, so that what happens beyond a failed one can
be followed where they are left aside.
-/

set_option autoImplicit false

namespace DeviceModel

structure PthreadMutex where
  lock : Bool
  /-- An assertion on `lock` has failed. -/
  failed : Bool
deriving DecidableEq

namespace PthreadMutex

variable (mutex : PthreadMutex)

def pthreadMutexInit : PthreadMutex := ⟨false, false⟩

def pthreadMutexLock : PthreadMutex := ⟨true, mutex.failed || mutex.lock⟩

def pthreadMutexUnlock : PthreadMutex := ⟨false, mutex.failed || !mutex.lock⟩

/-- `assert(pthread_mutex_isowned_np(mutex))` -/
def assertOwned : PthreadMutex := ⟨mutex.lock, mutex.failed || !mutex.lock⟩

end PthreadMutex

end DeviceModel
